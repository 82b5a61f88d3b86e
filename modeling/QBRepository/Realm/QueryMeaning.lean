import QBRepository.Predicate.Conformances
import QBRepository.Realm.QueryUtil
import QBRepository.Realm.Results

namespace QBRepository.QueryUtil

/-!
# What the query of a predicate selects

The calls that are made for a predicate are a clause of the query language, so the core finds the
objects on which the predicate holds.

* `RealmCore` — the objects of a Realm and the part of the core that queries them;
  `RealmCore.Executes` — it finds what a clause means;
* `Comparison.IsSupported` — the comparisons that are translated;
* `QueryBuilder.predicateToQuery_meets` — a predicate is translated if all its comparisons are,
  and then selects the objects on which it holds; else an exception is thrown.
-/

open ObjectStore (BaseType)

variable {Object Row : Type}

/-- The objects of a Realm, and the core that executes queries. -/
structure RealmCore (Object Row : Type) where
  value : Row → String → AnyObject Object
  link : Row → String → Option Row
  equal : Object → Object → Bool
  less : Object → Object → Bool
  lessEqual : Object → Object → Bool
  greaterEqual : Object → Object → Bool
  /-- `StringData::like` -/
  like : Object → String → Bool
  /-- `CFStringFind`, of a string that is not empty, without regard to case and diacritics -/
  find : Object → String → Bool
  validate : RealmQuery Object → String
  selects : RealmQuery Object → Row → Bool

namespace RealmCore

variable (core : RealmCore Object Row)

/-! ### Values -/

/-- The value of a property behind some links; null if one of them is. -/
def valueBehind : Row → List RLMProperty → RLMProperty → AnyObject Object
  | row, [], property => core.value row property.name
  | row, link :: links, property =>
    match core.link row link.name with
    | none => .nsNull
    | some target => valueBehind target links property

/-- `valueForKeyPath:`, on what is left of the key path -/
def valueForRest (row : Row) (rest : List Char) : AnyObject Object :=
  let key := String.ofList (rest.takeWhile (· != '.'))
  match _hdrop : rest.dropWhile (· != '.') with
  | [] => core.value row key
  | _ :: rest' =>
    match core.link row key with
    | none => .nsNull
    | some target => valueForRest target rest'
termination_by rest.length
decreasing_by exact length_of_dropWhile _hdrop

/-- The last name of a key path is read. -/
theorem valueForRest_last {row : Row} {rest : List Char}
    (hdrop : rest.dropWhile (· != '.') = []) :
    core.valueForRest row rest = core.value row (String.ofList (rest.takeWhile (· != '.'))) := by
  rw [valueForRest]
  split
  · rfl
  · rename_i hcons
    rw [hdrop] at hcons
    cases hcons

/-- The others are links that are followed. -/
theorem valueForRest_link {row : Row} {rest rest' : List Char} {c : Char}
    (hdrop : rest.dropWhile (· != '.') = c :: rest') :
    core.valueForRest row rest =
      match core.link row (String.ofList (rest.takeWhile (· != '.'))) with
      | none => .nsNull
      | some target => core.valueForRest target rest' := by
  rw [valueForRest]
  split
  · rename_i hnil
    rw [hdrop] at hnil
    cases hnil
  · rename_i hcons
    rw [hdrop] at hcons
    cases hcons
    rfl

/-- `contains_substring` -/
def containsSubstring (v1 : AnyObject Object) (v2 : Option String) : Bool :=
  match v1, v2 with
  | _, none => true
  | .nsNull, some _ => false
  | .object string, some substring => if substring = "" then true else core.find string substring

/-- A condition on two values, which may be null. -/
def meets : Condition → AnyObject Object → AnyObject Object → Bool
  | .less => AnyObject.compare false core.less
  | .lessEqual => AnyObject.compare true core.lessEqual
  | .greaterEqual => AnyObject.compare true core.greaterEqual
  | .equal => AnyObject.compare true core.equal

/-- `like` of two strings, which may be null. -/
def isLike (value : AnyObject Object) (pattern : Option String) : Bool :=
  match value, pattern with
  | .nsNull, none => true
  | .object string, some pattern => core.like string pattern
  | _, _ => false

/-- What is left of it where nothing contains null or the empty string. -/
def isContaining (value : AnyObject Object) : Option String → Bool
  | none => false
  | some substring => substring != "" && core.containsSubstring value (some substring)

/-- The objects on which an expression holds. -/
def holds : Expression Object → Row → Bool
  | .trueExpression, _ => true
  | .falseExpression, _ => false
  | .compare condition column value, row =>
    core.meets condition (core.valueBehind row column.links column.property) value
  | .like column pattern, row =>
    core.isLike (core.valueBehind row column.links column.property) pattern
  | .containsSubstring column string, row =>
    core.containsSubstring (core.valueBehind row column.links column.property) string

/-- The Realm as a backend of predicates. -/
def store : Store Object Row where
  valueForKeyPath row key := core.valueForRest row key.toList
  equal := core.equal
  less := core.less
  like := core.like
  -- no string contains the empty one
  containsCD string substring := substring != "" && core.find string substring

/-- A query that is a clause is valid, and selects the objects on which the clause holds. -/
structure Executes : Prop where
  validate : ∀ {calls meaning}, Fluent.Reads core.holds .clause calls meaning →
    core.validate calls = ""
  selects : ∀ {calls meaning}, Fluent.Reads core.holds .clause calls meaning →
    ∀ row, core.selects calls row = meaning row

/-- The same Realm, with a core that reads the calls of a query one by one. -/
def reading : RealmCore Object Row where
  value := core.value
  link := core.link
  equal := core.equal
  less := core.less
  lessEqual := core.lessEqual
  greaterEqual := core.greaterEqual
  like := core.like
  find := core.find
  validate calls := if (Fluent.found core.holds calls).isSome then "" else "Invalid query"
  selects calls row :=
    match Fluent.found core.holds calls with
    | some meaning => meaning row
    | none => false

/-- Reading the calls one by one changes no value. -/
theorem valueBehind_reading (row : Row) (links : List RLMProperty) (property : RLMProperty) :
    core.reading.valueBehind row links property = core.valueBehind row links property := by
  induction links generalizing row with
  | nil => rfl
  | cons link links ih =>
    have hlink : core.reading.link row link.name = core.link row link.name := rfl
    rw [valueBehind, valueBehind, hlink]
    cases core.link row link.name with
    | none => rfl
    | some target => exact ih target

/-- Nor does it change which conditions hold. -/
theorem holds_reading : core.reading.holds = core.holds := by
  funext expression row
  cases expression <;> simp only [holds, valueBehind_reading] <;> rfl

/-- **There is such a core for every Realm.** -/
theorem reading_executes : core.reading.Executes where
  validate hreads := by
    rw [holds_reading] at hreads
    show (if (Fluent.found core.holds _).isSome then "" else "Invalid query") = ""
    rw [hreads.found]
    rfl
  selects hreads row := by
    rw [holds_reading] at hreads
    show (match Fluent.found core.holds _ with
      | some meaning => meaning row
      | none => false) = _
    rw [hreads.found]

end RealmCore

/-! ### What is supported -/

/-- The operators that are supported on a column. -/
def ColumnReference.supports (column : ColumnReference) (operatorType : PredicateOperatorType) :
    Bool :=
  match column.property.type, operatorType with
  | .int, .lessThan | .int, .lessThanOrEqualTo | .int, .greaterThanOrEqualTo => true
  | .float, .lessThan | .float, .lessThanOrEqualTo | .float, .greaterThanOrEqualTo => true
  | .double, .lessThan | .double, .lessThanOrEqualTo | .double, .greaterThanOrEqualTo => true
  | .date, .lessThan | .date, .lessThanOrEqualTo | .date, .greaterThanOrEqualTo => true
  | .string, .like | .string, .contains => true
  | .data, .equalTo => column.links.isEmpty
  | .any, _ => false
  | _, .equalTo => true
  | _, _ => false

/-- A constant a property may be compared with: of its type, and not of another Realm. -/
structure FoundationObjects.Accepts (foundation : FoundationObjects Object)
    (column : ColumnReference) (value : AnyObject Object) : Prop where
  valid : foundation.isObjectValidForProperty value column.property = true
  ownRealm : ∀ object, value = .object object → foundation.isFromElsewhere object = false

/-- The constants and the operator are supported on the column. -/
def Comparison.SupportedOn (foundation : FoundationObjects Object) (column : ColumnReference) :
    Comparison Object → Prop
  | .compare operatorType value =>
    foundation.Accepts column value ∧ column.supports operatorType = true
  | .isIn values =>
    ∀ value ∈ values, foundation.Accepts column value ∧ column.supports .equalTo = true
  | .between lower upper =>
    (foundation.isObjectValidForProperty lower column.property = true ∧
      foundation.isObjectValidForProperty upper column.property = true) ∧
    column.supports .greaterThanOrEqualTo = true ∧ column.supports .lessThanOrEqualTo = true

/-- The key path leads to a column that supports the comparison. -/
def Comparison.IsSupported (builder : QueryBuilder Object) (objectSchema : RLMObjectSchema)
    (comparison : String × Comparison Object) : Prop :=
  ∃ column, columnReferenceFromKeyPath builder.schema objectSchema comparison.1 = .ok column ∧
    comparison.2.SupportedOn builder.foundation column

mutual

/-- The comparisons of a predicate, each with its key path. -/
def QueryBuilder.comparisons (builder : QueryBuilder Object) :
    NSPredicate Object → List (String × Comparison Object)
  | .equalTo key value => [(key, .compare .equalTo value)]
  | .lessThan key value => [(key, .compare .lessThan value)]
  | .inList key values => [(key, .isIn values)]
  | .between key lower upper => [(key, .between lower upper)]
  | .like key pattern =>
    [(key, .compare .like (.object (builder.foundation.nsString pattern)))]
  | .containsCD key string =>
    [(key, .compare .contains (.object (builder.foundation.nsString string)))]
  | .value _ => []
  | .and subpredicates => builder.comparisonsOfAll subpredicates
  | .or subpredicates => builder.comparisonsOfAll subpredicates
  | .not subpredicate => builder.comparisons subpredicate

/-- The comparisons of some predicates. -/
def QueryBuilder.comparisonsOfAll (builder : QueryBuilder Object) :
    List (NSPredicate Object) → List (String × Comparison Object)
  | [] => []
  | p :: ps => builder.comparisons p ++ builder.comparisonsOfAll ps

end

/-! ### Constraints -/

section Constraints

variable {core : RealmCore Object Row} {foundation : FoundationObjects Object}
  {column : ColumnReference} {operatorType : PredicateOperatorType} {value : AnyObject Object}

/-- The meaning of a constraint on a value. -/
def RealmCore.constrains (core : RealmCore Object Row) (foundation : FoundationObjects Object)
    (operatorType : PredicateOperatorType) (value constant : AnyObject Object) : Bool :=
  match operatorType with
  | .lessThan => core.meets .less value constant
  | .lessThanOrEqualTo => core.meets .lessEqual value constant
  | .greaterThanOrEqualTo => core.meets .greaterEqual value constant
  | .equalTo => core.meets .equal value constant
  | .like => core.isLike value (foundation.stringDataOf constant)
  | .contains => core.isContaining value (foundation.stringDataOf constant)

/-- The objects on which a constraint on a column holds. -/
def RealmCore.constrainsColumn (core : RealmCore Object Row) (foundation : FoundationObjects Object)
    (operatorType : PredicateOperatorType) (column : ColumnReference) (value : AnyObject Object)
    (row : Row) : Bool :=
  core.constrains foundation operatorType (core.valueBehind row column.links column.property) value

/-- A condition is added as a clause. -/
theorem adds_andQuery {meaning : Row → Bool} (expression : Expression Object)
    (h : ∀ row, core.holds expression row = meaning row) :
    Fluent.Appends core.holds .clause True meaning (andQuery expression) :=
  (Fluent.Appends.add expression).congr Iff.rfl (funext h)

/-- Numbers and dates are compared by all operators but those on strings. -/
theorem addNumericConstraint_adds (datatype : BaseType) :
    Fluent.Appends core.holds .clause (operatorType ≠ .like ∧ operatorType ≠ .contains)
      (core.constrainsColumn foundation operatorType column value)
      (addNumericConstraint datatype operatorType column value) := by
  cases operatorType with
  | lessThan => exact (adds_andQuery _ fun _ => rfl).congr (by simp) rfl
  | lessThanOrEqualTo => exact (adds_andQuery _ fun _ => rfl).congr (by simp) rfl
  | greaterThanOrEqualTo => exact (adds_andQuery _ fun _ => rfl).congr (by simp) rfl
  | equalTo => exact (adds_andQuery _ fun _ => rfl).congr (by simp) rfl
  | like => exact (Fluent.Appends.error _).congr (by simp) rfl
  | contains => exact (Fluent.Appends.error _).congr (by simp) rfl

/-- The constraints of the types on which only `==` is supported. -/
theorem adds_equalTo {step : Step Object}
    (hequal : operatorType = .equalTo → step = andQuery (.compare .equal column value))
    (herror : operatorType ≠ .equalTo → ∃ e, step = fun _ => .error e) :
    Fluent.Appends core.holds .clause (operatorType = .equalTo)
      (core.constrainsColumn foundation operatorType column value) step := by
  by_cases hoperator : operatorType = .equalTo
  · rw [hequal hoperator]
    subst hoperator
    exact (adds_andQuery _ fun _ => rfl).congr (by simp) rfl
  · obtain ⟨e, he⟩ := herror hoperator
    rw [he]
    exact (Fluent.Appends.error e).congr (by simp [hoperator]) rfl

/-- A search for a part of a string; null and the empty string are never found. -/
theorem addSubstringConstraint_adds (string : Option String) :
    Fluent.Appends core.holds .clause True
      (fun row => core.isContaining (core.valueBehind row column.links column.property) string)
      (addSubstringConstraint string (.containsSubstring column string)) := by
  cases string with
  | none => exact adds_andQuery _ fun _ => rfl
  | some substring =>
    rw [addSubstringConstraint]
    by_cases hempty : substring = ""
    · rw [if_pos hempty]
      exact adds_andQuery _ fun row => by simp [RealmCore.holds, RealmCore.isContaining, hempty]
    · rw [if_neg hempty]
      exact adds_andQuery _ fun row => by simp [RealmCore.holds, RealmCore.isContaining, hempty]

/-- Strings are compared by `==`, `LIKE` and `CONTAINS`. -/
theorem addStringConstraint_adds :
    Fluent.Appends core.holds .clause
      (operatorType = .equalTo ∨ operatorType = .like ∨ operatorType = .contains)
      (core.constrainsColumn foundation operatorType column value)
      (addStringConstraint foundation operatorType column value) := by
  cases operatorType with
  | lessThan => exact (Fluent.Appends.error _).congr (by simp) rfl
  | lessThanOrEqualTo => exact (Fluent.Appends.error _).congr (by simp) rfl
  | greaterThanOrEqualTo => exact (Fluent.Appends.error _).congr (by simp) rfl
  | equalTo => exact (adds_andQuery _ fun _ => rfl).congr (by simp) rfl
  | like => exact (adds_andQuery _ fun _ => rfl).congr (by simp) rfl
  | contains => exact (addSubstringConstraint_adds _).congr (by simp) rfl

/-- Truth values are compared by `==` only. -/
theorem addBoolConstraint_adds :
    Fluent.Appends core.holds .clause (operatorType = .equalTo)
      (core.constrainsColumn foundation operatorType column value)
      (addBoolConstraint operatorType column value) := by
  refine adds_equalTo (fun h => by rw [h, addBoolConstraint]) fun hoperator => ?_
  cases operatorType <;> first | exact absurd rfl hoperator | exact ⟨_, rfl⟩

/-- So are objects. -/
theorem addLinkConstraint_adds :
    Fluent.Appends core.holds .clause (operatorType = .equalTo)
      (core.constrainsColumn foundation operatorType column value)
      (addLinkConstraint operatorType column value) := by
  refine adds_equalTo (fun h => by rw [h, addLinkConstraint]) fun hoperator => ?_
  cases operatorType <;> first | exact absurd rfl hoperator | exact ⟨_, rfl⟩

/-- So are data, and not over a link. -/
theorem addBinaryConstraint_adds :
    Fluent.Appends core.holds .clause (column.links = [] ∧ operatorType = .equalTo)
      (core.constrainsColumn foundation operatorType column value)
      (addBinaryConstraint operatorType column value) := by
  unfold addBinaryConstraint
  by_cases hlinks : column.links = []
  · rw [if_neg (not_not.mpr hlinks)]
    refine Fluent.Appends.congr (adds_equalTo (fun h => ?_) fun hoperator => ?_)
      (and_iff_right hlinks).symm rfl
    · rw [h]
    · cases operatorType <;> first | exact absurd rfl hoperator | exact ⟨_, rfl⟩
  · rw [if_pos hlinks]
    exact (Fluent.Appends.error _).congr (by simp [hlinks]) rfl

/-- A constraint is added if its operator is supported on the column. -/
theorem addConstraint_adds :
    Fluent.Appends core.holds .clause (column.supports operatorType = true)
      (core.constrainsColumn foundation operatorType column value)
      (addConstraint foundation operatorType column value) := by
  unfold addConstraint ColumnReference.supports
  cases htype : column.property.type with
  | bool => exact addBoolConstraint_adds.congr (by cases operatorType <;> simp) rfl
  | object => exact addLinkConstraint_adds.congr (by cases operatorType <;> simp) rfl
  | linkingObjects => exact addLinkConstraint_adds.congr (by cases operatorType <;> simp) rfl
  | string => exact addStringConstraint_adds.congr (by cases operatorType <;> simp) rfl
  | data => exact addBinaryConstraint_adds.congr (by cases operatorType <;> simp) rfl
  | any => exact (Fluent.Appends.error _).congr (by simp) rfl
  | int => exact (addNumericConstraint_adds _).congr (by cases operatorType <;> simp) rfl
  | float => exact (addNumericConstraint_adds _).congr (by cases operatorType <;> simp) rfl
  | double => exact (addNumericConstraint_adds _).congr (by cases operatorType <;> simp) rfl
  | date => exact (addNumericConstraint_adds _).congr (by cases operatorType <;> simp) rfl

end Constraints

/-! ### Key paths -/

section KeyPaths

variable {schema : RLMSchema} {objectSchema : RLMObjectSchema}

/-- The column of a key path has the values that key-value coding reads. -/
theorem valueBehind_of_keyPathFromRest {core : RealmCore Object Row} {rest : List Char}
    {keyPath : RealmKeyPath} (h : keyPathFromRest schema objectSchema rest = .ok keyPath)
    (row : Row) :
    core.valueBehind row keyPath.links keyPath.property = core.valueForRest row rest := by
  fun_induction keyPathFromRest schema objectSchema rest generalizing keyPath row with
  | case1 => cases h
  | case2 objectSchema rest name property hproperty =>
    rename_i hdrop
    obtain rfl := Except.ok.inj h
    rw [RealmCore.valueForRest_last core hdrop]
    show core.value row property.name = _
    rw [name_of_propertyForName hproperty]
  | case3 objectSchema rest name property hproperty c rest' hdrop hlink =>
    rename_i ih
    obtain ⟨target, -, h⟩ := bind_eq_ok h
    obtain ⟨keyPath', hkeyPath', h⟩ := bind_eq_ok h
    obtain rfl := Except.ok.inj h
    rw [RealmCore.valueForRest_link core hdrop, RealmCore.valueBehind,
      name_of_propertyForName hproperty]
    cases core.link row name with
    | none => rfl
    | some row' => exact ih target hkeyPath' row'
  | case4 => cases h

/-- The value of a key path is that of its column. -/
theorem valueForKeyPath_eq {core : RealmCore Object Row} {keyPath : String}
    {column : ColumnReference}
    (h : columnReferenceFromKeyPath schema objectSchema keyPath = .ok column) (row : Row) :
    core.store.valueForKeyPath row keyPath
      = core.valueBehind row column.links column.property := by
  exact (valueBehind_of_keyPathFromRest (columnReference_eq_ok.mp h) row).symm

end KeyPaths

/-! ### Lists of steps -/

section Lists

variable {α : Type} {core : RealmCore Object Row} {accepted : α → Prop} {meaning : α → Row → Bool}
  {step : α → Step Object}

/-- One step. -/
theorem inSequence_singleton (s : Step Object) : inSequence [s] = s := by
  funext query
  show (s query >>= pure) = s query
  exact bind_pure _

/-- The first step, and then the others. -/
theorem inSequence_cons (s : Step Object) (steps : List (Step Object)) :
    inSequence (s :: steps) = fun query => s query >>= inSequence steps := by
  funext query
  exact List.foldlM_cons

/-- Clauses one after the other hold together. -/
theorem inSequence_adds {item : α} {items : List α}
    (h : ∀ a ∈ item :: items, Fluent.Appends core.holds .clause (accepted a) (meaning a) (step a)) :
    Fluent.Appends core.holds .conjunction (∀ a ∈ item :: items, accepted a)
      (fun row => (item :: items).all (meaning · row)) (inSequence ((item :: items).map step)) := by
  have hitem := h item List.mem_cons_self
  induction items generalizing item with
  | nil =>
    rw [List.map_singleton, inSequence_singleton]
    exact (hitem.raise .clause).congr (by simp) (by simp)
  | cons item' items ih =>
    have hitems := ih (fun a ha => h a (List.mem_cons_of_mem _ ha))
      (h item' (List.mem_cons_of_mem _ List.mem_cons_self))
    rw [List.map_cons, inSequence_cons]
    exact (hitem.and hitems).congr (by simp) (by simp)

/-- One item, without `or`. -/
theorem orEach_singleton (s : Step Object) : orEach true [s] = s := by
  funext query
  show (s query >>= pure) = s query
  exact bind_pure _

/-- The first item, and then `or` before the others. -/
theorem orEach_cons (s s' : Step Object) (steps : List (Step Object)) :
    orEach true (s :: s' :: steps)
      = fun query => s query >>= fun query => orEach true (s' :: steps) (query ++ [.or]) := rfl

/-- Of clauses with `or` between them one holds. -/
theorem orEach_adds {item : α} {items : List α}
    (h : ∀ a ∈ item :: items, Fluent.Appends core.holds .clause (accepted a) (meaning a) (step a)) :
    Fluent.Appends core.holds .alternatives (∀ a ∈ item :: items, accepted a)
      (fun row => (item :: items).any (meaning · row))
      (orEach true ((item :: items).map step)) := by
  have hitem := h item List.mem_cons_self
  induction items generalizing item with
  | nil =>
    rw [List.map_singleton, orEach_singleton]
    exact (hitem.raise fun hreads => .conjunction (.clause hreads)).congr (by simp) (by simp)
  | cons item' items ih =>
    have hitems := ih (fun a ha => h a (List.mem_cons_of_mem _ ha))
      (h item' (List.mem_cons_of_mem _ List.mem_cons_self))
    rw [List.map_cons, List.map_cons, orEach_cons]
    exact (hitem.or hitems).congr (by simp) (by simp)

/-- An empty group would not be valid; it is false instead. -/
theorem processOrGroup_adds {items : List α}
    (h : ∀ a ∈ items, Fluent.Appends core.holds .clause (accepted a) (meaning a) (step a)) :
    Fluent.Appends core.holds .clause (∀ a ∈ items, accepted a)
      (fun row => items.any (meaning · row)) (processOrGroup (items.map step)) := by
  cases items with
  | nil =>
    have hfalse : Fluent.Appends core.holds .clause True (fun _ => false)
        (andQuery .falseExpression) :=
      adds_andQuery .falseExpression fun _ => rfl
    exact (hfalse.raise fun hreads => .conjunction (.clause hreads)).group.congr (by simp)
      (by simp)
  | cons item items => exact (orEach_adds h).group

end Lists

/-! ### Comparisons -/

section Comparisons

variable {core : RealmCore Object Row} {foundation : FoundationObjects Object}
  {column : ColumnReference} {value : AnyObject Object} {clause keyPath : String}
  {objectSchema : RLMObjectSchema}

/-- A constant that is accepted passes the check. -/
theorem validatePropertyValue_ok (h : foundation.Accepts column value) :
    validatePropertyValue foundation column value clause objectSchema keyPath = .ok () := by
  unfold validatePropertyValue
  rw [if_pos h.valid]
  cases value with
  | nsNull => rfl
  | object object => simp [h.ownRealm object rfl]

/-- Any other constant does not. -/
theorem validatePropertyValue_error (h : ¬ foundation.Accepts column value) :
    ∃ e, validatePropertyValue foundation column value clause objectSchema keyPath = .error e := by
  unfold validatePropertyValue
  split
  · rename_i hvalid
    cases value with
    | nsNull => exact absurd ⟨hvalid, fun _ ho => by cases ho⟩ h
    | object object =>
      cases hforeign : foundation.isFromElsewhere object with
      | true => exact ⟨_, if_pos hforeign⟩
      | false =>
        refine absurd ⟨hvalid, fun object' ho => ?_⟩ h
        cases ho
        exact hforeign
  · exact ⟨_, rfl⟩

/-- A constraint whose constant is checked. -/
theorem validated_adds (operatorType : PredicateOperatorType) :
    Fluent.Appends core.holds .clause
      (foundation.Accepts column value ∧ column.supports operatorType = true)
      (core.constrainsColumn foundation operatorType column value)
      (fun query => do
        validatePropertyValue foundation column value clause objectSchema keyPath
        addConstraint foundation operatorType column value query) :=
  addConstraint_adds.check validatePropertyValue_ok validatePropertyValue_error

/-- A range is translated to a group of two clauses, one for each end, if both ends have the type
    of the column and it can be ordered by; otherwise an exception is thrown. -/
theorem addBetweenConstraint_adds (lower upper : AnyObject Object) :
    Fluent.Appends core.holds .clause
      ((Comparison.between lower upper).SupportedOn foundation column)
      (fun row => core.constrainsColumn foundation .greaterThanOrEqualTo column lower row &&
        core.constrainsColumn foundation .lessThanOrEqualTo column upper row)
      (addBetweenConstraint foundation column lower upper) := by
  by_cases hvalid : foundation.isObjectValidForProperty lower column.property = true ∧
      foundation.isObjectValidForProperty upper column.property = true
  · have hlower : Fluent.Appends core.holds .clause _ _
        (addConstraint foundation .greaterThanOrEqualTo column lower) := addConstraint_adds
    have hupper : Fluent.Appends core.holds .clause _ _
        (addConstraint foundation .lessThanOrEqualTo column upper) := addConstraint_adds
    have hgroup := ((hlower.and (hupper.raise .clause)).raise .conjunction).group
    have hstep : addBetweenConstraint foundation column lower upper = fun query => do
        let query ← (addConstraint foundation .greaterThanOrEqualTo column lower
          (query ++ [.group]) >>= addConstraint foundation .lessThanOrEqualTo column upper)
        return query ++ [.endGroup] := by
      funext query
      rw [addBetweenConstraint, if_pos (by simp [hvalid]), bind_assoc]
    rw [hstep]
    exact hgroup.congr (and_iff_right hvalid).symm rfl
  · have hstep : ∃ e, addBetweenConstraint foundation column lower upper = fun _ => .error e :=
      ⟨_, funext fun query => if_neg (by simpa using hvalid)⟩
    obtain ⟨e, he⟩ := hstep
    rw [he]
    exact (Fluent.Appends.error e).congr ⟨False.elim, fun h => absurd h.1 hvalid⟩ rfl

end Comparisons

/-! ### Predicates -/

section Predicates

variable {core : RealmCore Object Row} {builder : QueryBuilder Object}
  {objectSchema : RLMObjectSchema}

/-- What a comparison says of the value of its key path. -/
def RealmCore.compares (core : RealmCore Object Row) (foundation : FoundationObjects Object)
    (value : AnyObject Object) : Comparison Object → Bool
  | .compare operatorType constant => core.constrains foundation operatorType value constant
  | .isIn constants => constants.any fun constant =>
    core.constrains foundation .equalTo value constant
  | .between lower upper =>
    core.constrains foundation .greaterThanOrEqualTo value lower &&
      core.constrains foundation .lessThanOrEqualTo value upper

mutual

/-- The truth value of a predicate, with the comparisons of the core. -/
def RealmCore.means (core : RealmCore Object Row) (builder : QueryBuilder Object) (row : Row) :
    NSPredicate Object → Bool
  | .equalTo key value => core.compares builder.foundation (core.store.valueForKeyPath row key)
    (.compare .equalTo value)
  | .lessThan key value => core.compares builder.foundation (core.store.valueForKeyPath row key)
    (.compare .lessThan value)
  | .inList key values => core.compares builder.foundation (core.store.valueForKeyPath row key)
    (.isIn values)
  | .between key lower upper => core.compares builder.foundation
    (core.store.valueForKeyPath row key) (.between lower upper)
  | .like key pattern => core.compares builder.foundation (core.store.valueForKeyPath row key)
    (.compare .like (.object (builder.foundation.nsString pattern)))
  | .containsCD key string => core.compares builder.foundation
    (core.store.valueForKeyPath row key)
    (.compare .contains (.object (builder.foundation.nsString string)))
  | .value value => value
  | .and subpredicates => core.meansAll builder row subpredicates
  | .or subpredicates => core.meansAny builder row subpredicates
  | .not subpredicate => !core.means builder row subpredicate

/-- All predicates are true. -/
def RealmCore.meansAll (core : RealmCore Object Row) (builder : QueryBuilder Object) (row : Row) :
    List (NSPredicate Object) → Bool
  | [] => true
  | p :: ps => core.means builder row p && core.meansAll builder row ps

/-- Some predicate is true. -/
def RealmCore.meansAny (core : RealmCore Object Row) (builder : QueryBuilder Object) (row : Row) :
    List (NSPredicate Object) → Bool
  | [] => false
  | p :: ps => core.means builder row p || core.meansAny builder row ps

end

/-- A comparison is translated to a clause on the value of its key path, if it is supported. -/
theorem applyValueExpression_adds {keyPath : String} (hplain : '@' ∉ keyPath.toList)
    (comparison : Comparison Object) :
    Fluent.Appends core.holds .clause
      (Comparison.IsSupported builder objectSchema (keyPath, comparison))
      (fun row => core.compares builder.foundation (core.store.valueForKeyPath row keyPath)
        comparison)
      (builder.applyValueExpression objectSchema keyPath comparison) := by
  unfold QueryBuilder.applyValueExpression
  rw [if_neg hplain]
  cases hcolumn : columnReferenceFromKeyPath builder.schema objectSchema keyPath with
  | error e =>
    refine (Fluent.Appends.error e).congr ⟨False.elim, ?_⟩ rfl
    rintro ⟨column, hok, -⟩
    rw [hcolumn] at hok
    cases hok
  | ok column =>
    have hsupported : Comparison.IsSupported builder objectSchema (keyPath, comparison) ↔
        comparison.SupportedOn builder.foundation column := by
      constructor
      · rintro ⟨column', hok, hsupported⟩
        rw [hcolumn] at hok
        cases hok
        exact hsupported
      · exact fun hsupported => ⟨column, hcolumn, hsupported⟩
    have hvalue : (fun row => core.compares builder.foundation
          (core.store.valueForKeyPath row keyPath) comparison)
        = fun row => core.compares builder.foundation
          (core.valueBehind row column.links column.property) comparison := by
      funext row
      rw [valueForKeyPath_eq hcolumn row]
    rw [hsupported, hvalue]
    cases comparison with
    | compare operatorType value => exact validated_adds operatorType
    | isIn values => exact processOrGroup_adds fun value _ => validated_adds .equalTo
    | between lower upper => exact addBetweenConstraint_adds lower upper

/-- A predicate that is one comparison. -/
theorem comparison_adds {p : NSPredicate Object} {key : String} {comparison : Comparison Object}
    (hcomparisons : builder.comparisons p = [(key, comparison)])
    (hplain : ∀ c ∈ builder.comparisons p, '@' ∉ c.1.toList)
    (hstep : builder.applyPredicate objectSchema p
      = builder.applyValueExpression objectSchema key comparison)
    (hmeans : ∀ row, core.means builder row p = core.compares builder.foundation
      (core.store.valueForKeyPath row key) comparison) :
    Fluent.Appends core.holds .clause
      (∀ c ∈ builder.comparisons p, Comparison.IsSupported builder objectSchema c)
      (fun row => core.means builder row p) (builder.applyPredicate objectSchema p) := by
  rw [hcomparisons] at hplain ⊢
  rw [hstep]
  refine (applyValueExpression_adds (hplain _ List.mem_cons_self) comparison).congr
    (List.forall_mem_singleton).symm (funext fun row => (hmeans row).symm)

/-- There is a step for each predicate. -/
theorem applyEach_eq (ps : List (NSPredicate Object)) :
    builder.applyEach objectSchema ps = ps.map (builder.applyPredicate objectSchema) := by
  induction ps with
  | nil => rw [QueryBuilder.applyEach, List.map_nil]
  | cons p ps ih => rw [QueryBuilder.applyEach, ih, List.map_cons]

/-- The comparisons of some predicates are those of each. -/
theorem comparisonsOfAll_eq (ps : List (NSPredicate Object)) :
    builder.comparisonsOfAll ps = ps.flatMap builder.comparisons := by
  induction ps with
  | nil => rw [QueryBuilder.comparisonsOfAll, List.flatMap_nil]
  | cons p ps ih => rw [QueryBuilder.comparisonsOfAll, ih, List.flatMap_cons]

/-- The truth value of a conjunction. -/
theorem meansAll_eq (row : Row) (ps : List (NSPredicate Object)) :
    core.meansAll builder row ps = ps.all (core.means builder row) := by
  induction ps with
  | nil => rw [RealmCore.meansAll, List.all_nil]
  | cons p ps ih => rw [RealmCore.meansAll, ih, List.all_cons]

/-- The truth value of a disjunction. -/
theorem meansAny_eq (row : Row) (ps : List (NSPredicate Object)) :
    core.meansAny builder row ps = ps.any (core.means builder row) := by
  induction ps with
  | nil => rw [RealmCore.meansAny, List.any_nil]
  | cons p ps ih => rw [RealmCore.meansAny, ih, List.any_cons]

/-- The comparisons of some predicates are supported if those of each are. -/
theorem forall_comparisonsOfAll {P : String × Comparison Object → Prop}
    (ps : List (NSPredicate Object)) :
    (∀ c ∈ builder.comparisonsOfAll ps, P c) ↔ ∀ p ∈ ps, ∀ c ∈ builder.comparisons p, P c := by
  rw [comparisonsOfAll_eq, List.forall_mem_flatMap]

/-- Compounds of predicates that are translated. -/
theorem and_adds {p : NSPredicate Object} {ps : List (NSPredicate Object)}
    (h : ∀ q ∈ p :: ps, Fluent.Appends core.holds .clause
      (∀ c ∈ builder.comparisons q, Comparison.IsSupported builder objectSchema c)
      (fun row => core.means builder row q) (builder.applyPredicate objectSchema q)) :
    Fluent.Appends core.holds .clause
      (∀ c ∈ builder.comparisons (.and (p :: ps)), Comparison.IsSupported builder objectSchema c)
      (fun row => core.means builder row (.and (p :: ps)))
      (builder.applyPredicate objectSchema (.and (p :: ps))) := by
  rw [QueryBuilder.applyPredicate, applyEach_eq, QueryBuilder.comparisons,
    forall_comparisonsOfAll]
  refine ((inSequence_adds h).raise .conjunction).group.congr Iff.rfl (funext fun row => ?_)
  rw [RealmCore.means, meansAll_eq]

/-- Disjunctions of predicates that are translated, also the empty one. -/
theorem or_adds {ps : List (NSPredicate Object)}
    (h : ∀ q ∈ ps, Fluent.Appends core.holds .clause
      (∀ c ∈ builder.comparisons q, Comparison.IsSupported builder objectSchema c)
      (fun row => core.means builder row q) (builder.applyPredicate objectSchema q)) :
    Fluent.Appends core.holds .clause
      (∀ c ∈ builder.comparisons (.or ps), Comparison.IsSupported builder objectSchema c)
      (fun row => core.means builder row (.or ps))
      (builder.applyPredicate objectSchema (.or ps)) := by
  rw [QueryBuilder.applyPredicate, applyEach_eq, QueryBuilder.comparisons,
    forall_comparisonsOfAll]
  refine (processOrGroup_adds h).congr Iff.rfl (funext fun row => ?_)
  rw [RealmCore.means, meansAny_eq]

mutual

/-- A predicate is translated to a clause that means it, if its comparisons are supported. -/
theorem applyPredicate_adds : ∀ p : NSPredicate Object,
    (∀ c ∈ builder.comparisons p, '@' ∉ c.1.toList) →
    Fluent.Appends core.holds .clause
      (∀ c ∈ builder.comparisons p, Comparison.IsSupported builder objectSchema c)
      (fun row => core.means builder row p) (builder.applyPredicate objectSchema p)
  | .equalTo key value, hplain =>
    comparison_adds (by rw [QueryBuilder.comparisons]) hplain (by rw [QueryBuilder.applyPredicate])
      fun row => by rw [RealmCore.means]
  | .lessThan key value, hplain =>
    comparison_adds (by rw [QueryBuilder.comparisons]) hplain (by rw [QueryBuilder.applyPredicate])
      fun row => by rw [RealmCore.means]
  | .inList key values, hplain =>
    comparison_adds (by rw [QueryBuilder.comparisons]) hplain (by rw [QueryBuilder.applyPredicate])
      fun row => by rw [RealmCore.means]
  | .between key lower upper, hplain =>
    comparison_adds (by rw [QueryBuilder.comparisons]) hplain (by rw [QueryBuilder.applyPredicate])
      fun row => by rw [RealmCore.means]
  | .like key pattern, hplain =>
    comparison_adds (by rw [QueryBuilder.comparisons]) hplain (by rw [QueryBuilder.applyPredicate])
      fun row => by rw [RealmCore.means]
  | .containsCD key string, hplain =>
    comparison_adds (by rw [QueryBuilder.comparisons]) hplain (by rw [QueryBuilder.applyPredicate])
      fun row => by rw [RealmCore.means]
  | .value true, _ => by
    rw [QueryBuilder.applyPredicate, QueryBuilder.comparisons]
    exact (adds_andQuery .trueExpression fun row => by rw [RealmCore.means]; rfl).congr
      (by simp) rfl
  | .value false, _ => by
    rw [QueryBuilder.applyPredicate, QueryBuilder.comparisons]
    exact (adds_andQuery .falseExpression fun row => by rw [RealmCore.means]; rfl).congr
      (by simp) rfl
  | .and [], _ => by
    rw [QueryBuilder.applyPredicate, QueryBuilder.comparisons, QueryBuilder.comparisonsOfAll]
    exact (adds_andQuery .trueExpression
      fun row => by rw [RealmCore.means, RealmCore.meansAll]; rfl).congr (by simp) rfl
  | .and (p :: ps), hplain =>
    and_adds (applyPredicate_adds_all (p :: ps)
      (by rwa [QueryBuilder.comparisons] at hplain))
  | .or ps, hplain =>
    or_adds (applyPredicate_adds_all ps (by rwa [QueryBuilder.comparisons] at hplain))
  | .not p, hplain => by
    rw [QueryBuilder.comparisons] at hplain ⊢
    rw [QueryBuilder.applyPredicate]
    exact (applyPredicate_adds p hplain).not.congr Iff.rfl
      (funext fun row => by rw [RealmCore.means])

/-- Each of some predicates is. -/
theorem applyPredicate_adds_all : ∀ ps : List (NSPredicate Object),
    (∀ c ∈ builder.comparisonsOfAll ps, '@' ∉ c.1.toList) →
    ∀ p ∈ ps, Fluent.Appends core.holds .clause
      (∀ c ∈ builder.comparisons p, Comparison.IsSupported builder objectSchema c)
      (fun row => core.means builder row p) (builder.applyPredicate objectSchema p)
  | [], _ => List.forall_mem_nil _
  | p :: ps, hplain => by
    rw [QueryBuilder.comparisonsOfAll, List.forall_mem_append] at hplain
    exact List.forall_mem_cons.mpr
      ⟨applyPredicate_adds p hplain.1, applyPredicate_adds_all ps hplain.2⟩

end

/-- A predicate is translated if all its comparisons are supported, and then its query selects the
    objects on which it is true for the core; else an exception is thrown. -/
theorem predicateToQuery_meets (builder : QueryBuilder Object) (objectSchema : RLMObjectSchema)
    (hcore : core.Executes) (p : NSPredicate Object)
    (hplain : ∀ c ∈ builder.comparisons p, '@' ∉ c.1.toList) :
    ((∀ c ∈ builder.comparisons p, Comparison.IsSupported builder objectSchema c) →
      ∃ query, builder.predicateToQuery objectSchema core.validate p = .ok query ∧
        ∀ row, core.selects query row = core.means builder row p) ∧
    ((¬ ∀ c ∈ builder.comparisons p, Comparison.IsSupported builder objectSchema c) →
      ∃ e, builder.predicateToQuery objectSchema core.validate p = .error e) := by
  have hadds : Fluent.Appends core.holds .clause _ _ (builder.applyPredicate objectSchema p) :=
    applyPredicate_adds p hplain
  constructor
  · intro hsupported
    obtain ⟨query, hquery, hreads⟩ := (hadds []).1 hsupported
    rw [List.nil_append] at hquery
    refine ⟨query, ?_, hcore.selects hreads⟩
    rw [QueryBuilder.predicateToQuery, hquery]
    exact if_pos (hcore.validate hreads)
  · intro hsupported
    obtain ⟨e, he⟩ := (hadds []).2 hsupported
    exact ⟨e, by rw [QueryBuilder.predicateToQuery, he]; rfl⟩

end Predicates

/-! ### Ranges

The core compares a value with both ends of a range; where one of them is not a number, it is in no
range, though it is not smaller than the lower end and not greater than the upper one. -/

section Ranges

variable {core : RealmCore Object Row} {builder : QueryBuilder Object} {row : Row}

/-- A value is compared with the ends of a range as in a total order. -/
def RealmCore.OrdersRange (core : RealmCore Object Row) (value : AnyObject Object) :
    Comparison Object → Prop
  | .between lower upper => ∀ object, value = .object object →
    (∀ bound, lower = .object bound →
      core.greaterEqual object bound = !core.less object bound) ∧
    ∀ bound, upper = .object bound → core.lessEqual object bound = !core.less bound object
  | .compare _ _ | .isIn _ => True

/-- The values of an object are, for the ranges of a predicate. -/
def RealmCore.OrdersRanges (core : RealmCore Object Row) (builder : QueryBuilder Object)
    (p : NSPredicate Object) (row : Row) : Prop :=
  ∀ c ∈ builder.comparisons p, core.OrdersRange (core.store.valueForKeyPath row c.1) c.2

/-- Both ends of a range. -/
theorem between_eq {value lower upper : AnyObject Object}
    (h : core.OrdersRange value (.between lower upper)) :
    (core.meets .greaterEqual value lower && core.meets .lessEqual value upper)
      = (core.store.isLessEqual lower value && core.store.isLessEqual value upper) := by
  cases value with
  | nsNull =>
    cases lower with
    | nsNull => cases upper <;> rfl
    | object _ => rfl
  | object object =>
    obtain ⟨hlower, hupper⟩ := h object rfl
    congr 1
    · cases lower with
      | nsNull => rfl
      | object bound => exact hlower bound rfl
    · cases upper with
      | nsNull => rfl
      | object bound => exact hupper bound rfl

/-- The store matches strings as the core does. -/
theorem matchesString_like (string : String) (value : AnyObject Object) :
    Store.matchesString core.store.like string value = core.isLike value (some string) := by
  cases value <;> rfl

/-- So it does with the strings that contain one. -/
theorem matchesString_contains (string : String) (value : AnyObject Object) :
    Store.matchesString core.store.containsCD string value
      = core.isContaining value (some string) := by
  cases value with
  | nsNull => simp [Store.matchesString, RealmCore.isContaining, RealmCore.containsSubstring]
  | object object =>
    by_cases hempty : string = "" <;>
      simp [Store.matchesString, RealmCore.isContaining, RealmCore.containsSubstring,
        RealmCore.store, hempty]

mutual

/-- **Where no range meets a value that is not a number, a predicate is true for the core where it
    holds.** -/
theorem means_eq_holds : ∀ p : NSPredicate Object, core.OrdersRanges builder p row →
    core.means builder row p = core.store.holds row p
  | .equalTo key value, _ => by
    rw [RealmCore.means, Store.holds]
    rfl
  | .lessThan key value, _ => by
    rw [RealmCore.means, Store.holds]
    rfl
  | .inList key values, _ => by
    rw [RealmCore.means, Store.holds]
    rfl
  | .between key lower upper, hordered => by
    rw [RealmCore.OrdersRanges, QueryBuilder.comparisons, List.forall_mem_singleton] at hordered
    rw [RealmCore.means, Store.holds]
    exact between_eq hordered
  | .like key pattern, _ => by
    rw [RealmCore.means, Store.holds, matchesString_like, RealmCore.compares,
      RealmCore.constrains, FoundationObjects.stringDataOf, builder.foundation.stringData_nsString]
  | .containsCD key string, _ => by
    rw [RealmCore.means, Store.holds, matchesString_contains, RealmCore.compares,
      RealmCore.constrains, FoundationObjects.stringDataOf, builder.foundation.stringData_nsString]
  | .value value, _ => by rw [RealmCore.means, Store.holds]
  | .and ps, hordered => by
    rw [RealmCore.OrdersRanges, QueryBuilder.comparisons] at hordered
    rw [RealmCore.means, Store.holds, (meansOf_eq_holdsOf ps hordered).1]
  | .or ps, hordered => by
    rw [RealmCore.OrdersRanges, QueryBuilder.comparisons] at hordered
    rw [RealmCore.means, Store.holds, (meansOf_eq_holdsOf ps hordered).2]
  | .not p, hordered => by
    rw [RealmCore.OrdersRanges, QueryBuilder.comparisons] at hordered
    rw [RealmCore.means, Store.holds, means_eq_holds p hordered]

/-- The same for some predicates. -/
theorem meansOf_eq_holdsOf : ∀ ps : List (NSPredicate Object),
    (∀ c ∈ builder.comparisonsOfAll ps,
      core.OrdersRange (core.store.valueForKeyPath row c.1) c.2) →
    core.meansAll builder row ps = core.store.holdsAll row ps ∧
      core.meansAny builder row ps = core.store.holdsAny row ps
  | [], _ => by
    rw [RealmCore.meansAll, Store.holdsAll, RealmCore.meansAny, Store.holdsAny]
    exact ⟨rfl, rfl⟩
  | p :: ps, hordered => by
    rw [QueryBuilder.comparisonsOfAll, List.forall_mem_append] at hordered
    obtain ⟨hall, hany⟩ := meansOf_eq_holdsOf ps hordered.2
    have hp := means_eq_holds p hordered.1
    rw [RealmCore.meansAll, Store.holdsAll, RealmCore.meansAny, Store.holdsAny, hp, hall, hany]
    exact ⟨rfl, rfl⟩

end

end Ranges

/-! ### `getElements` -/

/-- The views of a class whose filters are translated. -/
def RealmCore.tableViews (core : RealmCore Object Row) (builder : QueryBuilder Object)
    (objectSchema : RLMObjectSchema) (views : TableViews Object Row) : TableViews Object Row where
  toStore := core.store
  schema := views.schema
  objectSchema := views.objectSchema
  supports p := (builder.predicateToQuery objectSchema core.validate p).toBool
  precedes := views.precedes
  same := views.same
  sorting := views.sorting
  uniquing := views.uniquing

section GetElements

variable {core : RealmCore Object Row} {builder : QueryBuilder Object}
  {objectSchema : RLMObjectSchema} {views : TableViews Object Row} {query : Query Object Row}
  {np : NSPredicate Object} {sortKeyPath : Option (ComparableKeyPath Row)}
  {distinctKeyPath : Option (HashableKeyPath Row)} {results : Results Object}

/-- Sorting does not look at the conditions of the query. -/
theorem sorted_withQuery {objects sorted : Results Object}
    (h : RealmRepository.addStep sortKeyPath (fun objects keyPath => do
      objects.sorted views (← RealmRepository.forced keyPath.string)) objects = .returns sorted)
    (conditions : List (NSPredicate Object)) :
    sorted.query = objects.query ∧
      RealmRepository.addStep sortKeyPath (fun objects keyPath => do
        objects.sorted views (← RealmRepository.forced keyPath.string))
        { objects with query := conditions } = .returns { sorted with query := conditions } := by
  cases sortKeyPath with
  | none =>
    obtain rfl := Outcome.returns.inj h
    exact ⟨rfl, rfl⟩
  | some keyPath =>
    obtain ⟨key, hforced, hsorted⟩ := Outcome.bind_eq_returns.mp h
    obtain ⟨columns, hcolumns, hresults⟩ := Outcome.bind_eq_returns.mp hsorted
    obtain rfl := Outcome.returns.inj hresults
    exact ⟨rfl, Outcome.bind_eq_returns.mpr
      ⟨key, hforced, Outcome.bind_eq_returns.mpr ⟨columns, hcolumns, rfl⟩⟩⟩

/-- Neither does the choice of distinct values. -/
theorem distinct_withQuery {objects unique : Results Object}
    (h : RealmRepository.addStep distinctKeyPath (fun objects keyPath => do
      objects.distinct views (← RealmRepository.forced keyPath.string)) objects
        = .returns unique) (conditions : List (NSPredicate Object)) :
    unique.query = objects.query ∧
      RealmRepository.addStep distinctKeyPath (fun objects keyPath => do
        objects.distinct views (← RealmRepository.forced keyPath.string))
        { objects with query := conditions } = .returns { unique with query := conditions } := by
  cases distinctKeyPath with
  | none =>
    obtain rfl := Outcome.returns.inj h
    exact ⟨rfl, rfl⟩
  | some keyPath =>
    obtain ⟨key, hforced, hdistinct⟩ := Outcome.bind_eq_returns.mp h
    rw [Results.distinct] at hdistinct
    split at hdistinct
    · cases hdistinct
    · rename_i hat
      obtain ⟨columns, hcolumns, hresults⟩ := Outcome.bind_eq_returns.mp hdistinct
      obtain rfl := Outcome.returns.inj hresults
      refine ⟨rfl, Outcome.bind_eq_returns.mpr ⟨key, hforced, ?_⟩⟩
      rw [Results.distinct, if_neg hat]
      exact Outcome.bind_eq_returns.mpr ⟨columns, hcolumns, rfl⟩

/-- A filter that is supported adds its condition to the collection, and nothing else. -/
theorem getElements_filtered (hnp : query.createPredicate = some np)
    (hsupports : views.supports np = true)
    (h : RealmRepository.getElements views none sortKeyPath distinctKeyPath = .returns results) :
    results.query = [] ∧
      RealmRepository.getElements views (some query) sortKeyPath distinctKeyPath
        = .returns { results with query := [np] } := by
  obtain ⟨objects, hobjects, h⟩ := Outcome.bind_eq_returns.mp h
  obtain ⟨sorted, hsorted, hdistinct⟩ := Outcome.bind_eq_returns.mp h
  obtain rfl := Outcome.returns.inj hobjects
  obtain ⟨hquery, hsorted'⟩ := sorted_withQuery hsorted [np]
  obtain ⟨hquery', hdistinct'⟩ := distinct_withQuery hdistinct [np]
  refine ⟨hquery'.trans hquery, Outcome.bind_eq_returns.mpr ⟨⟨[np], []⟩, ?_,
    Outcome.bind_eq_returns.mpr ⟨_, hsorted', hdistinct'⟩⟩⟩
  exact Outcome.bind_eq_returns.mpr
    ⟨np, RealmRepository.forced_eq_returns.mpr hnp, by rw [Results.filter, if_pos hsupports]; rfl⟩

/-- A filter that is not supported raises. -/
theorem getElements_raises (hnp : query.createPredicate = some np)
    (hsupports : views.supports np = false) :
    RealmRepository.getElements views (some query) sortKeyPath distinctKeyPath = .raises := by
  have hfilter : RealmRepository.addStep (some query) (fun objects query => do
      objects.filter views (← RealmRepository.forced query.createPredicate)) Results.all
        = .raises := by
    show (RealmRepository.forced query.createPredicate >>= Results.filter views .all) = _
    rw [hnp]
    exact if_neg (by rw [hsupports]; exact Bool.false_ne_true)
  rw [RealmRepository.getElements, hfilter]
  rfl

/-- **`getElements` executes the query its filter is translated to**: it raises if a comparison of
    the filter is not supported; else it returns if it does without the filter, and what is read
    are the objects the core selects.  These are the ones on which the filter holds, where no range
    of it meets a value that is not a number. -/
theorem getElements_executes (hcore : core.Executes)
    (views : TableViews Object Row) (hnp : query.createPredicate = some np)
    (hplain : ∀ c ∈ builder.comparisons np, '@' ∉ c.1.toList)
    (sortKeyPath : Option (ComparableKeyPath Row))
    (distinctKeyPath : Option (HashableKeyPath Row)) :
    ((¬ ∀ c ∈ builder.comparisons np, Comparison.IsSupported builder objectSchema c) →
      RealmRepository.getElements (core.tableViews builder objectSchema views) (some query)
        sortKeyPath distinctKeyPath = .raises) ∧
    ((∀ c ∈ builder.comparisons np, Comparison.IsSupported builder objectSchema c) →
      ∃ calls, builder.predicateToQuery objectSchema core.validate np = .ok calls ∧
        (∀ row, core.selects calls row = core.means builder row np) ∧
        (∀ row, core.OrdersRanges builder np row →
          core.selects calls row = core.store.holds row np) ∧
        ∀ unfiltered, RealmRepository.getElements (core.tableViews builder objectSchema views)
            none sortKeyPath distinctKeyPath = .returns unfiltered →
          ∃ results, RealmRepository.getElements (core.tableViews builder objectSchema views)
              (some query) sortKeyPath distinctKeyPath = .returns results ∧
            ∀ objects : List (RowId × Row),
              (∀ object ∈ objects, core.OrdersRanges builder np object.2) →
              results.elements (core.tableViews builder objectSchema views) objects
                = unfiltered.elements (core.tableViews builder objectSchema views)
                  (objects.filter fun object => core.selects calls object.2)) := by
  obtain ⟨htranslated, hthrown⟩ := predicateToQuery_meets builder objectSchema hcore np hplain
  constructor
  · intro hsupported
    obtain ⟨e, he⟩ := hthrown hsupported
    refine getElements_raises hnp ?_
    show (builder.predicateToQuery objectSchema core.validate np).toBool = false
    rw [he]
    rfl
  · intro hsupported
    obtain ⟨calls, hcalls, hselects⟩ := htranslated hsupported
    have hholds : ∀ row, core.OrdersRanges builder np row →
        core.selects calls row = core.store.holds row np := fun row hordered =>
      (hselects row).trans (means_eq_holds np hordered)
    refine ⟨calls, hcalls, hselects, hholds, fun unfiltered hunfiltered => ?_⟩
    have hsupports : (core.tableViews builder objectSchema views).supports np = true := by
      show (builder.predicateToQuery objectSchema core.validate np).toBool = true
      rw [hcalls]
      rfl
    obtain ⟨hquery, hresults⟩ := getElements_filtered hnp hsupports hunfiltered
    refine ⟨_, hresults, fun objects hordered => ?_⟩
    rw [Results.elements, Results.elements, hquery]
    congr 1
    rw [List.filter_filter]
    refine List.filter_congr fun object hobject => ?_
    show (core.store.holds object.2 np && true) = (true && core.selects calls object.2)
    rw [hholds object.2 (hordered object hobject), Bool.and_true, Bool.true_and]

end GetElements

/-! ### Persons by the numbers of their friends -/

namespace Sample

/-- The objects properties are boxed into, by their classes. -/
def boxedObjects : FoundationObjects NSObject where
  classOf
    | .integer value => .nsNumber ⟨'q', value.toInt, true⟩
    | .float _ => .nsNumber ⟨'f', 0, true⟩
    | .double _ => .nsNumber ⟨'d', 0, true⟩
    | .date _ => .nsDate
    | .string _ => .nsString
  isFromElsewhere _ := false
  description _ := ""
  nsString := .string
  stringData
    | .string value => value
    | _ => ""
  classOf_nsString _ := rfl
  stringData_nsString _ := rfl

def builder : QueryBuilder NSObject where
  foundation := boxedObjects
  schema := persons
  applyCollectionOperatorExpression _ _ _ := fun _ =>
    .error ⟨"Invalid predicate", "Collection operation can only be applied to an RLMArray."⟩

def isLess : NSObject → NSObject → Bool
  | .integer a, .integer b => decide (a < b)
  | _, _ => false

def numberOf (row : Nat) : Int64 := if row = 0 then 3 else 7

/-- Two persons, of whom the first has the second as a friend. -/
def twoFriends : RealmCore NSObject Nat where
  value row key := if key = "number" then .object (.integer (numberOf row)) else .nsNull
  link row key := if key = "friend" ∧ row = 0 then some 1 else none
  equal a b := decide (a = b)
  less := isLess
  lessEqual a b := !isLess b a
  greaterEqual a b := !isLess a b
  like _ _ := false
  find _ _ := false
  validate _ := ""
  selects _ _ := false

def friendViews : TableViews NSObject Nat where
  toStore := twoFriends.store
  schema := ⟨[]⟩
  objectSchema := ⟨"Person", [], []⟩
  supports _ := true
  precedes _ _ _ := false
  same _ _ _ := false
  sorting := .merge _
  uniquing := .keepFirst _

/-- The persons whose friend has a number of at least 5; without a friend there is none. -/
def friendFromFive : Query NSObject Nat :=
  .ofPredicate ((⟨fun _ => 7, some "friend.number"⟩ : QBRepository.KeyPath Nat Int64).less 5).not

/-- The filter has one comparison. -/
theorem comparisons_friendFromFive :
    builder.comparisons (.and [.not (.lessThan "friend.number" (.object (.integer 5)))])
      = [("friend.number", .compare .lessThan (.object (.integer 5)))] := by
  simp [QueryBuilder.comparisons, QueryBuilder.comparisonsOfAll]

/-- It is one that is translated. -/
theorem friendFromFive_isSupported : ∀ c ∈ builder.comparisons
    (.and [.not (.lessThan "friend.number" (.object (.integer 5)))]),
    Comparison.IsSupported builder person c := by
  rw [comparisons_friendFromFive]
  refine List.forall_mem_singleton.mpr ⟨⟨[friend], number⟩, columnReference_friendNumber, ?_⟩
  exact ⟨⟨rfl, fun _ _ => rfl⟩, rfl⟩

/-- The persons are filtered by a query over a link. -/
theorem getElements_executes_friends :
    ∃ calls, builder.predicateToQuery person twoFriends.reading.validate
        (.and [.not (.lessThan "friend.number" (.object (.integer 5)))]) = .ok calls ∧
      (∀ row, twoFriends.reading.selects calls row = twoFriends.reading.means builder row
        (.and [.not (.lessThan "friend.number" (.object (.integer 5)))])) ∧
      (∀ row, twoFriends.reading.OrdersRanges builder
          (.and [.not (.lessThan "friend.number" (.object (.integer 5)))]) row →
        twoFriends.reading.selects calls row = twoFriends.reading.store.holds row
          (.and [.not (.lessThan "friend.number" (.object (.integer 5)))])) ∧
      ∀ unfiltered, RealmRepository.getElements
          (twoFriends.reading.tableViews builder person friendViews) none none none
            = .returns unfiltered →
        ∃ results, RealmRepository.getElements
            (twoFriends.reading.tableViews builder person friendViews) (some friendFromFive)
            none none = .returns results ∧
          ∀ objects : List (RowId × Nat),
            (∀ object ∈ objects, twoFriends.reading.OrdersRanges builder
              (.and [.not (.lessThan "friend.number" (.object (.integer 5)))]) object.2) →
            results.elements (twoFriends.reading.tableViews builder person friendViews) objects
              = unfiltered.elements (twoFriends.reading.tableViews builder person friendViews)
                (objects.filter fun object => twoFriends.reading.selects calls object.2) :=
  (getElements_executes twoFriends.reading_executes friendViews rfl
    (by rw [comparisons_friendFromFive]; decide) none none).2 friendFromFive_isSupported

end Sample

end QBRepository.QueryUtil
