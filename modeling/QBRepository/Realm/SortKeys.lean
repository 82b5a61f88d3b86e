import QBRepository.Realm.QueryUtil

namespace QBRepository.QueryUtil

/-!
# Key paths to filter by and to sort by

A Realm resolves the key path of a filter in the schema of its Objective-C classes, and the one of
a sort or a distinct in the copy of it that the core has.

* `RLMSchema.objectStoreCopy` — the copy;
* `ColumnReference.IsSortable` — the columns a Realm sorts by; `ColumnReference.columns` — the
  columns on the way to them;
* `parseKeypath_iff_columnReference` — a key path can be sorted by exactly if it can be filtered
  by and leads to a sortable column, and then both lead along the same columns.
-/

open ObjectStore (Path dotted isSortableType IsName parseKeypath)

/-! ### The copy of the schema -/

variable (columns : String → String → Nat)

/-- `objectStoreCopy` of a property, with its column in the table of its class -/
def RLMProperty.objectStoreCopy (property : RLMProperty) (className : String) :
    ObjectStore.Property where
  name := property.name
  type := ⟨property.type, property.array⟩
  objectType := property.objectClassName
  tableColumn := columns className property.name

/-- `objectStoreCopy` of an object schema -/
def RLMObjectSchema.objectStoreCopy (objectSchema : RLMObjectSchema) :
    ObjectStore.ObjectSchema where
  name := objectSchema.className
  persistedProperties :=
    objectSchema.properties.map (·.objectStoreCopy columns objectSchema.className)
  computedProperties :=
    objectSchema.computedProperties.map (·.objectStoreCopy columns objectSchema.className)

/-- `objectStoreCopy` of a schema -/
def RLMSchema.objectStoreCopy (schema : RLMSchema) : ObjectStore.Schema where
  objects := schema.objectSchema.map (·.objectStoreCopy columns)

/-- A column over links to objects, of a type that can be sorted by. -/
structure ColumnReference.IsSortable (column : ColumnReference) : Prop where
  links : ∀ link ∈ column.links, link.type = .object
  sortable : isSortableType ⟨column.property.type, column.property.array⟩ = true
  value : column.property.type ≠ .object

/-- The columns of the links and of the property, from a class on. -/
def columnsOf : String → List RLMProperty → RLMProperty → List Nat
  | className, [], property => [columns className property.name]
  | className, link :: links, property =>
    columns className link.name :: columnsOf link.objectClassName links property

section Copy

variable {columns} {schema : RLMSchema} {objectSchema : RLMObjectSchema}

/-- A property is found in the copy where the original has it. -/
theorem propertyForName_copy (name : String) :
    (objectSchema.objectStoreCopy columns).propertyForName name
      = (objectSchema.propertyForName name).map
          (·.objectStoreCopy columns objectSchema.className) := by
  rw [ObjectStore.ObjectSchema.propertyForName, RLMObjectSchema.objectStoreCopy, ← List.map_append,
    List.find?_map]
  rfl

/-- So is a class. -/
theorem find_copy (name : String) : (schema.objectStoreCopy columns).find name
    = (schema.objectSchema.find? fun objectSchema => objectSchema.className == name).map
        (·.objectStoreCopy columns) := by
  rw [ObjectStore.Schema.find, RLMSchema.objectStoreCopy, List.find?_map]
  rfl

end Copy

/-! ### The two resolutions -/

section Resolutions

variable {columns} {schema : RLMSchema} {objectSchema : RLMObjectSchema}

/-- A property of the copy is the copy of a property. -/
theorem property_of_copy {name : String} {prop : ObjectStore.Property}
    (h : (objectSchema.objectStoreCopy columns).propertyForName name = some prop) :
    ∃ property, objectSchema.propertyForName name = some property ∧
      property.objectStoreCopy columns objectSchema.className = prop := by
  rw [propertyForName_copy] at h
  exact Option.map_eq_some_iff.mp h

/-- A class that the copy has is the copy of one. -/
theorem target_of_copy {name : String} {target : ObjectStore.ObjectSchema}
    (h : (schema.objectStoreCopy columns).find name = some target) :
    ∃ target', schema.schemaForClassName name = .ok target' ∧
      target'.objectStoreCopy columns = target := by
  rw [find_copy] at h
  obtain ⟨target', htarget', rfl⟩ := Option.map_eq_some_iff.mp h
  exact ⟨target', schemaForClassName_eq_ok.mpr htarget', rfl⟩

/-- What can be sorted by is no array. -/
theorem not_array {type : ObjectStore.BaseType} {array : Bool}
    (h : isSortableType ⟨type, array⟩ = true) : array = false := by
  cases array with
  | false => rfl
  | true => cases h

/-- The key path of a path of the copy leads to a sortable column, along the same columns. -/
theorem keyPathFromRest_dotted {copied : ObjectStore.ObjectSchema}
    {path : List ObjectStore.Property} (h : Path (schema.objectStoreCopy columns) copied path)
    (hnames : ∀ prop ∈ path, IsName prop.name)
    (hcopied : copied = objectSchema.objectStoreCopy columns) :
    ∃ links property, keyPathFromRest schema objectSchema (dotted path)
        = .ok ⟨links, property, false⟩ ∧
      (⟨links, property⟩ : ColumnReference).IsSortable ∧
      path.map ObjectStore.Property.tableColumn
        = columnsOf columns objectSchema.className links property := by
  induction h generalizing objectSchema with
  | @value copied prop hprop hsortable hbase =>
    subst hcopied
    obtain ⟨property, hproperty, rfl⟩ := property_of_copy hprop
    obtain ⟨-, hdot⟩ := hnames _ List.mem_cons_self
    obtain ⟨htake, hdrop⟩ := ObjectStore.takeWhile_name hdot (Or.inl rfl)
    rw [List.append_nil] at htake hdrop
    have harray : property.array = false := not_array hsortable
    refine ⟨[], property, ?_, ⟨by simp, hsortable, hbase⟩, rfl⟩
    rw [dotted, keyPathFromRest_last hdrop (by rw [htake, String.ofList_toList]; exact hproperty),
      harray]
  | @link copied prop target path hprop hsortable hbase htarget hpath ih =>
    subst hcopied
    obtain ⟨property, hproperty, rfl⟩ := property_of_copy hprop
    obtain ⟨target', htarget', rfl⟩ := target_of_copy htarget
    obtain ⟨-, hdot⟩ := hnames _ List.mem_cons_self
    obtain ⟨links, last, hrest, hlast, hcolumns⟩ :=
      ih (fun p hp => hnames p (List.mem_cons_of_mem _ hp)) rfl
    obtain ⟨htake, hdrop⟩ := ObjectStore.takeWhile_name hdot (Or.inr ⟨dotted path, rfl⟩)
    have harray : property.array = false := not_array hsortable
    refine ⟨property :: links, last, ?_, ⟨?_, hlast.sortable, hlast.value⟩, ?_⟩
    · rw [ObjectStore.dotted_cons hpath.ne_nil, keyPathFromRest_link hdrop
        (by rw [htake, String.ofList_toList]; exact hproperty) hbase htarget' hrest, harray]
      rfl
    · exact List.forall_mem_cons.mpr ⟨hbase, hlast.links⟩
    · rw [List.map_cons, hcolumns, columnsOf, className_of_schemaForClassName htarget']
      rfl

/-- The property behind the first name of a key path, in the copy. -/
theorem copy_of_propertyForName {rest : List Char} {property : RLMProperty}
    (hproperty : objectSchema.propertyForName (String.ofList (rest.takeWhile (· != '.')))
      = some property) :
    property.name.toList = rest.takeWhile (· != '.') ∧ IsName property.name ∧
      (objectSchema.objectStoreCopy columns).propertyForName property.name
        = some (property.objectStoreCopy columns objectSchema.className) := by
  have hne : rest.takeWhile (· != '.') ≠ [] := by
    intro hnil
    have hname := name_of_propertyForName hproperty
    rw [hnil] at hname
    exact objectSchema.named property (List.mem_of_find?_eq_some hproperty) hname
  have hcopy : (objectSchema.objectStoreCopy columns).propertyForName
      (String.ofList (rest.takeWhile (· != '.')))
        = some (property.objectStoreCopy columns objectSchema.className) := by
    rw [propertyForName_copy, hproperty]
    rfl
  exact ObjectStore.isName_takeWhile hne hcopy

/-- A key path that leads to a sortable column is that of a path of the copy. -/
theorem path_of_keyPathFromRest {rest : List Char} {keyPath : RealmKeyPath}
    (h : keyPathFromRest schema objectSchema rest = .ok keyPath)
    (harray : keyPath.containsToManyRelationship = false)
    (hsortable : (⟨keyPath.links, keyPath.property⟩ : ColumnReference).IsSortable) :
    ∃ path, Path (schema.objectStoreCopy columns) (objectSchema.objectStoreCopy columns) path ∧
      (∀ prop ∈ path, IsName prop.name) ∧ rest = dotted path ∧
      path.map ObjectStore.Property.tableColumn
        = columnsOf columns objectSchema.className keyPath.links keyPath.property := by
  fun_induction keyPathFromRest schema objectSchema rest generalizing keyPath with
  | case1 => cases h
  | case2 objectSchema rest name property hproperty =>
    rename_i hdrop
    obtain rfl := Except.ok.inj h
    obtain ⟨htoList, hname, hfound⟩ := copy_of_propertyForName hproperty
    refine ⟨[property.objectStoreCopy columns objectSchema.className],
      .value hfound hsortable.sortable hsortable.value, ?_, ?_, rfl⟩
    · exact List.forall_mem_singleton.mpr hname
    · have happend := List.takeWhile_append_dropWhile (p := (· != '.')) (l := rest)
      rw [hdrop, List.append_nil, ← htoList] at happend
      exact happend.symm
  | case3 objectSchema rest name property hproperty c rest' hdrop hlink =>
    rename_i ih
    obtain ⟨target, htarget, h⟩ := bind_eq_ok h
    obtain ⟨keyPath', hkeyPath', h⟩ := bind_eq_ok h
    obtain rfl := Except.ok.inj h
    obtain ⟨hproperty', harray'⟩ := Bool.or_eq_false_iff.mp harray
    obtain ⟨hobject, hlinks⟩ := List.forall_mem_cons.mp hsortable.links
    obtain ⟨path, hpath, hnames, hrest, hcolumns⟩ :=
      ih target hkeyPath' harray' ⟨hlinks, hsortable.sortable, hsortable.value⟩
    obtain ⟨htoList, hname, hfound⟩ := copy_of_propertyForName hproperty
    refine ⟨property.objectStoreCopy columns objectSchema.className :: path,
      .link hfound ?_ hobject ?_ hpath, List.forall_mem_cons.mpr ⟨hname, hnames⟩, ?_, ?_⟩
    · show isSortableType ⟨property.type, property.array⟩ = true
      rw [hobject, hproperty']
      rfl
    · rw [find_copy, RLMProperty.objectStoreCopy, schemaForClassName_eq_ok.mp htarget]
      rfl
    · have happend := List.takeWhile_append_dropWhile (p := (· != '.')) (l := rest)
      have hdot : c = '.' := by
        rcases ObjectStore.dropWhile_name rest with hnil | hdot
        · rw [hdrop] at hnil
          cases hnil
        · rw [hdrop] at hdot
          exact (List.cons.inj hdot).1
      rw [hdrop, ← htoList, hdot, hrest] at happend
      rw [ObjectStore.dotted_cons hpath.ne_nil]
      exact happend.symm
    · rw [List.map_cons, hcolumns, columnsOf, className_of_schemaForClassName htarget]
      rfl
  | case4 => cases h

end Resolutions

/-- **A key path can be sorted by exactly if it can be filtered by and leads to a sortable
    column**, and both lead along the same columns. -/
theorem parseKeypath_iff_columnReference {schema : RLMSchema} {objectSchema : RLMObjectSchema}
    (hlinked : (schema.objectStoreCopy columns).Linked)
    (hobject : objectSchema ∈ schema.objectSchema) (keyPath : String) (sorted : List Nat) :
    parseKeypath keyPath (schema.objectStoreCopy columns) (objectSchema.objectStoreCopy columns)
        = some (.ok sorted) ↔
      ∃ column, columnReferenceFromKeyPath schema objectSchema keyPath = .ok column ∧
        column.IsSortable ∧
        sorted = columnsOf columns objectSchema.className column.links column.property := by
  have hresolve : ∀ path, Path (schema.objectStoreCopy columns)
      (objectSchema.objectStoreCopy columns) path → (∀ prop ∈ path, IsName prop.name) →
      keyPath.toList = dotted path → parseKeypath keyPath (schema.objectStoreCopy columns)
        (objectSchema.objectStoreCopy columns)
          = some (.ok (path.map ObjectStore.Property.tableColumn)) := by
    intro path hpath hnames hdotted
    rw [parseKeypath, hdotted, if_neg (ObjectStore.dotted_ne_nil hpath.ne_nil hnames),
      ObjectStore.parseRest_dotted hpath hnames]
  constructor
  · intro hparse
    have hpath : ∃ path, Path (schema.objectStoreCopy columns)
        (objectSchema.objectStoreCopy columns) path ∧ (∀ prop ∈ path, IsName prop.name) ∧
        keyPath.toList = dotted path := by
      rw [parseKeypath] at hparse
      split at hparse
      · cases hparse
      · rename_i hne
        rcases ObjectStore.parseRest_cases hlinked (List.mem_map_of_mem hobject) hne with
          ⟨reason, herror⟩ | hpath
        · rw [herror] at hparse
          cases hparse
        · exact hpath
    obtain ⟨path, hpath, hnames, hdotted⟩ := hpath
    rw [hresolve path hpath hnames hdotted] at hparse
    obtain rfl := Except.ok.inj (Option.some.inj hparse)
    obtain ⟨links, property, hrest, hsortable, hcolumns⟩ := keyPathFromRest_dotted hpath hnames rfl
    rw [← hdotted] at hrest
    exact ⟨⟨links, property⟩, columnReference_eq_ok.mpr hrest, hsortable, hcolumns⟩
  · rintro ⟨column, hcolumn, hsortable, rfl⟩
    obtain ⟨path, hpath, hnames, hdotted, hcolumns⟩ :=
      path_of_keyPathFromRest (columnReference_eq_ok.mp hcolumn) rfl hsortable
    rw [hresolve path hpath hnames hdotted, hcolumns]

/-! ### The number of a friend -/

namespace Sample

/-- The columns of a person. -/
def columnsOfPerson (_ name : String) : Nat := if name = "number" then 0 else 1

/-- The links of the copied schema lead to its classes. -/
theorem persons_linked : (persons.objectStoreCopy columnsOfPerson).Linked := by
  intro objectSchema hobject prop hprop hbase
  obtain ⟨person', hperson, rfl⟩ := List.mem_map.mp hobject
  obtain rfl := List.mem_singleton.mp hperson
  simp only [RLMObjectSchema.objectStoreCopy, person, List.map_cons, List.map_nil, List.append_nil,
    List.mem_cons, List.not_mem_nil, or_false] at hprop
  rcases hprop with rfl | rfl
  · cases hbase
  · simp [find_copy, RLMProperty.objectStoreCopy, friend, persons, person]

/-- The number of a friend can be sorted by, since it is resolved in a filter. -/
theorem parseKeypath_friendNumber :
    parseKeypath "friend.number" (persons.objectStoreCopy columnsOfPerson)
      (person.objectStoreCopy columnsOfPerson) = some (.ok [1, 0]) := by
  refine (parseKeypath_iff_columnReference columnsOfPerson persons_linked List.mem_cons_self
    "friend.number" [1, 0]).mpr ⟨⟨[friend], number⟩, columnReference_friendNumber, ?_, rfl⟩
  exact ⟨by decide, by decide, by decide⟩

end Sample

end QBRepository.QueryUtil
