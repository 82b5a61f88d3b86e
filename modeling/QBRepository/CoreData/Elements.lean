import QBRepository.CoreData.Repository
import QBRepository.Elements.KeyPath

namespace QBRepository

/-!
# `CoreDataRepository.getElements`

The filter and the sort key go into the fetch request, and the fetched objects are made
distinct in memory.

* `SortingStore` — a store that also sorts by a string key path;
* `FetchRequest` — the request; `CoreDataStack.fetchElements` — what the store makes of it;
* `CoreDataRepository.getElements` — `none` where forming the request traps;
  `CoreDataRepository.getElement` — the first object with an id.
-/

variable {Object Entity : Type}

/-- A store that sorts by a descriptor: `precedes key a b` puts `a` before `b`. -/
structure SortingStore (Object Model : Type) extends Store Object Model where
  precedes : String → Model → Model → Bool

/-- What is set of an `NSFetchRequest`: its predicate and the key it is sorted by. -/
structure FetchRequest (Object : Type) where
  predicate : Option (NSPredicate Object)
  sortDescriptor : Option String

/-- The store sorts by the string of the key path as `<` does. -/
def ComparableKeyPath.SortsIn (keyPath : ComparableKeyPath Entity)
    (S : SortingStore Object Entity) : Prop :=
  ∀ key, keyPath.string = some key → S.precedes key = keyPath.isSmaller

/-- The visible objects, each with the values of its properties. -/
def Context.elements (ctx : Context Entity) : List (ObjectID × Entity) :=
  ctx.fetched.filterMap fun id => (ctx.visible id).map fun entity => (id, entity)

/-- The elements are the fetched objects with their models. -/
theorem Context.map_fst_elements (ctx : Context Entity) :
    ctx.elements.map Prod.fst = ctx.fetched := by
  rw [Context.elements, List.map_filterMap]
  conv_rhs => rw [← List.filterMap_some (l := ctx.fetched)]
  refine List.filterMap_congr fun id hid => ?_
  obtain ⟨entity, hentity⟩ := Option.ne_none_iff_exists'.mp (Context.mem_fetched.mp hid)
  rw [hentity]
  rfl

section Fetch

variable (S : SortingStore Object Entity) (sorting : Sorting (ObjectID × Entity))

/-- The visible objects on which the predicate of a request holds, if it has one. -/
def CoreDataRepository.selected (predicate : Option (NSPredicate Object)) (ctx : Context Entity) :
    List (ObjectID × Entity) :=
  filteredBy (predicate.map fun predicate object => S.holds object.2 predicate) ctx.elements

/-- The objects of a request, sorted by its descriptor, if it has one. -/
def FetchRequest.results (request : FetchRequest Object) (ctx : Context Entity) :
    List (ObjectID × Entity) :=
  sortedBy sorting (request.sortDescriptor.map fun key a b => S.precedes key a.2 b.2)
    (CoreDataRepository.selected S request.predicate ctx)

/-- `fetch`, with a request -/
def CoreDataStack.fetchElements (stack : CoreDataStack Entity) (request : FetchRequest Object)
    (ctx : Context Entity) :
    Except ContextError (List (ObjectID × Entity)) × Context Entity :=
  match stack.fetch ctx with
  | (.ok _, ctx') => (.ok (request.results S sorting ctx), ctx')
  | (.error error, ctx') => (.error error, ctx')

end Fetch

namespace CoreDataRepository

variable (stack : CoreDataStack Entity) (S : SortingStore Object Entity)
  (sorting : Sorting (ObjectID × Entity)) (order : Enumeration (Int × List (ObjectID × Entity)))

/-- The request of `getElements`. -/
def makeRequest (filter : Option (Query Object Entity))
    (sortKeyPath : Option (ComparableKeyPath Entity)) : Option (FetchRequest Object) := do
  let predicate ← filter.mapM Query.createPredicate
  let sortDescriptor ← sortKeyPath.mapM ComparableKeyPath.string
  return { predicate, sortDescriptor }

/-- `getElements(filteredBy:sortedBy:distinctUsing:)` -/
def getElements (filter : Option (Query Object Entity))
    (sortKeyPath : Option (ComparableKeyPath Entity))
    (distinctKeyPath : Option (HashableKeyPath Entity)) (ctx : Context Entity) :
    Option (List (ObjectID × Entity) × Context Entity) := do
  let request ← makeRequest filter sortKeyPath
  return match stack.fetchElements S sorting request ctx with
    | (.ok results, ctx) =>
      (distinctUsing order (distinctKeyPath.map fun keyPath object => keyPath.hashValue object.2)
        results, ctx)
    | (.error _, ctx) => ([], ctx)

/-- `getElement(withId:)`, with the object of the id; its request has a fetch limit of 1. -/
def getElement (id : AnyObject Object) (ctx : Context Entity) :
    Option (ObjectID × Entity) × Context Entity :=
  match stack.fetchElements S sorting ⟨some (.equalTo "id" id), none⟩ ctx with
  | (.ok results, ctx) => ((results.take 1).head?, ctx)
  | (.error _, ctx) => (none, ctx)

section Request

variable {stack} {filter : Option (Query Object Entity)}
  {sortKeyPath : Option (ComparableKeyPath Entity)} {request : FetchRequest Object}
  {ctx : Context Entity}

/-- A request is made if every predicate has a store form and every key path has a string. -/
theorem makeRequest_eq_some : makeRequest filter sortKeyPath = some request ↔
    filter.mapM Query.createPredicate = some request.predicate ∧
      sortKeyPath.mapM ComparableKeyPath.string = some request.sortDescriptor := by
  obtain ⟨predicate, sortDescriptor⟩ := request
  simp [makeRequest, Option.bind_eq_some_iff]

/-- A request with a sort key that the store sorts by. -/
theorem results_of_sortsIn {keyPath : ComparableKeyPath Entity}
    (hrequest : makeRequest filter (some keyPath) = some request) (hsort : keyPath.SortsIn S) :
    request.results S sorting ctx =
      sortedBy sorting (some fun a b => keyPath.isSmaller a.2 b.2)
        (selected S request.predicate ctx) := by
  obtain ⟨-, hdescriptor⟩ := makeRequest_eq_some.mp hrequest
  simp only [Option.mapM_some, Option.map_eq_map, Option.map_eq_some_iff] at hdescriptor
  obtain ⟨key, hkey, hdescriptor⟩ := hdescriptor
  rw [FetchRequest.results, ← hdescriptor, ← hsort key hkey]
  rfl

/-- The fetch fails, and nothing is returned. -/
theorem getElements_of_fault (hrequest : makeRequest filter sortKeyPath = some request)
    (distinctKeyPath : Option (HashableKeyPath Entity)) {code : Nat}
    (hfault : stack.fault ctx.calls = some code) :
    getElements stack S sorting order filter sortKeyPath distinctKeyPath ctx
      = some ([], ctx.tick) := by
  simp [getElements, hrequest, CoreDataStack.fetchElements, CoreDataStack.fetch, hfault]

/-- The fetch succeeds, and its results are returned. -/
theorem getElements_of_fetch (hrequest : makeRequest filter sortKeyPath = some request)
    (distinctKeyPath : Option (HashableKeyPath Entity)) (hfault : stack.fault ctx.calls = none) :
    getElements stack S sorting order filter sortKeyPath distinctKeyPath ctx
      = some (distinctUsing order
          (distinctKeyPath.map fun keyPath object => keyPath.hashValue object.2)
          (request.results S sorting ctx), ctx.tick) := by
  simp [getElements, hrequest, CoreDataStack.fetchElements, CoreDataStack.fetch, hfault]

end Request

/-- `getElement(withId:)` is the first object of `getElements` with `==` as the filter; of several
    objects with the id, which nothing prevents, it is one. -/
theorem getElement_eq_first {Id : Type} [EquatableProperty Object Id] (keyPath : KeyPath Entity Id)
    (hkey : keyPath._kvcKeyPathString = some "id") (id : Id) (ctx : Context Entity) :
    (getElements stack S sorting order (some (.ofPredicate (keyPath.equal id))) none none ctx).map
        (fun result => (result.1.head?, result.2))
      = some (getElement stack S sorting (_object id) ctx) := by
  have hrequest : makeRequest (some (.ofPredicate (keyPath.equal id))) none
      = some ⟨some (.and [.equalTo "id" (_object id)]), none⟩ := by
    simp [makeRequest, Query.createPredicate, Query.ofPredicate, KeyPath.equal, equalPredicate,
      KeyPath.format, hkey]
  have hholds : ∀ entity, S.holds entity (.and [.equalTo "id" (_object id)])
      = S.holds entity (.equalTo "id" (_object id)) := by
    intro entity
    simp [Store.holds, Store.holdsAll]
  cases hfault : stack.fault ctx.calls with
  | some code =>
    rw [getElements_of_fault S sorting order hrequest none hfault]
    simp [getElement, CoreDataStack.fetchElements, CoreDataStack.fetch, hfault]
  | none =>
    rw [getElements_of_fetch S sorting order hrequest none hfault]
    simp [getElement, CoreDataStack.fetchElements, CoreDataStack.fetch, hfault, distinctUsing,
      FetchRequest.results, sortedBy, selected, hholds, List.head?_take]

/-- `getAll()` is `getElements` without filter, sort key and distinct key. -/
theorem getElements_none (ctx : Context Entity) :
    (getElements stack S sorting order none none none ctx).map
        (fun result => (result.1.map Prod.fst, result.2)) = some (getAll stack ctx) := by
  cases hfault : stack.fault ctx.calls with
  | some code =>
    rw [getElements_of_fault S sorting order rfl none hfault]
    simp [getAll, CoreDataStack.fetch, hfault]
  | none =>
    rw [getElements_of_fetch S sorting order rfl none hfault]
    simp [getAll, CoreDataStack.fetch, hfault, distinctUsing, FetchRequest.results, sortedBy,
      selected, filteredBy, Context.map_fst_elements]

end CoreDataRepository

end QBRepository
