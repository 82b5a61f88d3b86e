import Mathlib.Data.List.TakeWhile

namespace QBRepository.ObjectStore

/-!
# Key paths of a schema

A Realm resolves the key path of a sort or a distinct to a chain of columns before it evaluates
anything, and throws on one it cannot sort by.

* `Property`, `ObjectSchema`, `Schema` — what the resolution reads of the schema;
* `parseKeypath` — the resolution; `none` where it would read past the schema;
* `Path` — properties that lead over links to a value;
* `parseKeypath_iff` — exactly the key paths of such properties are resolved, each to its columns;
  the others are named in the message, and the resolution never reads past the schema.
-/

/-- `PropertyType` without its flags -/
inductive BaseType where
  | int
  | bool
  | string
  | data
  | date
  | float
  | double
  | object
  | linkingObjects
  | any
deriving DecidableEq

/-- `PropertyType` -/
structure PropertyType where
  base : BaseType
  isArray : Bool
deriving DecidableEq

/-- `Property` -/
structure Property where
  name : String
  type : PropertyType
  objectType : String
  tableColumn : Nat

/-- `ObjectSchema` -/
structure ObjectSchema where
  name : String
  persistedProperties : List Property
  computedProperties : List Property

/-- `Schema` -/
structure Schema where
  objects : List ObjectSchema

/-- `string_for_property_type` -/
def stringForPropertyType (type : PropertyType) : String :=
  if type.isArray then
    if type.base = .linkingObjects then "linking objects" else "array"
  else
    match type.base with
    | .string => "string"
    | .int => "int"
    | .bool => "bool"
    | .date => "date"
    | .data => "data"
    | .double => "double"
    | .float => "float"
    | .object => "object"
    | .any => "any"
    | .linkingObjects => "linking objects"

/-- `type_string` -/
def Property.typeString (prop : Property) : String :=
  if prop.type.isArray then
    match prop.type.base with
    | .object => "array<" ++ prop.objectType ++ ">"
    | .linkingObjects => "linking objects<" ++ prop.objectType ++ ">"
    | base => "array<" ++ stringForPropertyType ⟨base, false⟩ ++ ">"
  else
    match prop.type.base with
    | .object => "<" ++ prop.objectType ++ ">"
    | .linkingObjects => "linking objects<" ++ prop.objectType ++ ">"
    | base => stringForPropertyType ⟨base, false⟩

/-- `property_for_name` -/
def ObjectSchema.propertyForName (objectSchema : ObjectSchema) (name : String) :
    Option Property :=
  (objectSchema.persistedProperties ++ objectSchema.computedProperties).find?
    fun prop => prop.name == name

/-- `find` -/
def Schema.find (schema : Schema) (name : String) : Option ObjectSchema :=
  schema.objects.find? fun objectSchema => objectSchema.name == name

/-- `is_sortable_type` -/
def isSortableType (type : PropertyType) : Bool :=
  !type.isArray && type.base != .linkingObjects && type.base != .data

/-- The message of a failed check. -/
def message (keypath reason : String) : String :=
  "Cannot sort on key path '" ++ keypath ++ "': " ++ reason ++ "."

/-- What lies behind the first name of a key path. -/
def afterName (rest : List Char) : List Char := (rest.dropWhile (· != '.')).drop 1

/-- What follows a name is shorter, which is why the loop ends. -/
theorem length_afterName_lt {rest : List Char} (h : rest ≠ []) :
    (afterName rest).length < rest.length := by
  have hpos := List.length_pos_iff.mpr h
  have hle := (List.dropWhile_suffix (l := rest) (· != '.')).length_le
  rw [afterName, List.length_drop]
  omega

/-- The loop of `parse_keypath`, on what lies between its iterators. -/
def parseRest (schema : Schema) (keypath : String) :
    ObjectSchema → List Char → Option (Except String (List Nat))
  | _, [] => some (.ok [])
  | objectSchema, c :: cs =>
    let rest := c :: cs
    let key := rest.takeWhile (· != '.')
    if key = [] ∨ rest.dropWhile (· != '.') = ['.'] then
      some (.error (message keypath "missing property name"))
    else
      let name := objectSchema.name ++ "." ++ String.ofList key
      match objectSchema.propertyForName (String.ofList key) with
      | none => some (.error (message keypath ("property '" ++ name ++ "' does not exist")))
      | some prop =>
        if !isSortableType prop.type then
          some (.error (message keypath ("property '" ++ name ++ "' is of unsupported type '"
            ++ stringForPropertyType prop.type ++ "'")))
        else if prop.type.base = .object then
          if afterName rest = [] then
            some (.error (message keypath ("property '" ++ name
              ++ "' of type 'object' cannot be the final property in the key path")))
          else
            -- the iterator that is found is not compared with the end of the schema
            match schema.find prop.objectType with
            | none => none
            | some target =>
              (parseRest schema keypath target (afterName rest)).map
                (Except.map (prop.tableColumn :: ·))
        else if afterName rest ≠ [] then
          some (.error (message keypath ("property '" ++ name ++ "' of type '"
            ++ prop.typeString ++ "' may only be the final property in the key path")))
        else
          (parseRest schema keypath objectSchema (afterName rest)).map
            (Except.map (prop.tableColumn :: ·))
termination_by _ rest => rest.length
decreasing_by
  · exact length_afterName_lt (List.cons_ne_nil c cs)
  · exact length_afterName_lt (List.cons_ne_nil c cs)

/-- `parse_keypath` -/
def parseKeypath (keypath : String) (schema : Schema) (objectSchema : ObjectSchema) :
    Option (Except String (List Nat)) :=
  if keypath.toList = [] then some (.error (message keypath "missing property name"))
  else parseRest schema keypath objectSchema keypath.toList

/-! ### Paths of properties -/

/-- The links of a validated schema have their classes in it. -/
def Schema.Linked (schema : Schema) : Prop :=
  ∀ objectSchema ∈ schema.objects,
    ∀ prop ∈ objectSchema.persistedProperties ++ objectSchema.computedProperties,
      prop.type.base = .object → schema.find prop.objectType ≠ none

/-- Properties of a class that lead over links to a value that can be sorted by. -/
inductive Path (schema : Schema) : ObjectSchema → List Property → Prop
  | value {objectSchema prop} (hprop : objectSchema.propertyForName prop.name = some prop)
    (hsortable : isSortableType prop.type = true) (hbase : prop.type.base ≠ .object) :
    Path schema objectSchema [prop]
  | link {objectSchema prop target path}
    (hprop : objectSchema.propertyForName prop.name = some prop)
    (hsortable : isSortableType prop.type = true) (hbase : prop.type.base = .object)
    (htarget : schema.find prop.objectType = some target) (hpath : Path schema target path) :
    Path schema objectSchema (prop :: path)

/-- A name that can stand in a key path. -/
def IsName (name : String) : Prop := name.toList ≠ [] ∧ '.' ∉ name.toList

/-- The names of a path, with dots between them. -/
def dotted : List Property → List Char
  | [] => []
  | [prop] => prop.name.toList
  | prop :: path => prop.name.toList ++ '.' :: dotted path

/-! ### What is accepted -/

section Parse

variable {schema : Schema} {objectSchema : ObjectSchema} {keypath : String}

/-- A name is read up to the dot that follows it. -/
theorem takeWhile_name {name suffix : List Char} (hname : '.' ∉ name)
    (hsuffix : suffix = [] ∨ ∃ rest, suffix = '.' :: rest) :
    (name ++ suffix).takeWhile (· != '.') = name ∧
      (name ++ suffix).dropWhile (· != '.') = suffix := by
  have hall : ∀ c ∈ name, (c != '.') = true := by
    intro c hc
    simp only [bne_iff_ne, ne_eq]
    rintro rfl
    exact hname hc
  rw [List.takeWhile_append_of_pos hall, List.dropWhile_append_of_pos hall]
  rcases hsuffix with rfl | ⟨rest, rfl⟩
  · simp
  · simp

/-- The name of a property that is found is the name it was looked for by. -/
theorem name_of_propertyForName {name : String} {prop : Property}
    (h : objectSchema.propertyForName name = some prop) : prop.name = name := by
  have hbeq := List.find?_some h
  exact eq_of_beq hbeq

/-- A path of named properties has a key path. -/
theorem dotted_ne_nil {path : List Property} (hpath : path ≠ [])
    (hnames : ∀ prop ∈ path, IsName prop.name) : dotted path ≠ [] := by
  match path with
  | [] => exact absurd rfl hpath
  | [prop] => exact (hnames prop List.mem_cons_self).1
  | prop :: prop' :: path => simp [dotted]

/-- A path has a property. -/
theorem Path.ne_nil {path : List Property} (h : Path schema objectSchema path) : path ≠ [] := by
  cases h with
  | value => exact List.cons_ne_nil _ _
  | link => exact List.cons_ne_nil _ _

/-- One turn of the loop, on a name and what follows it. -/
theorem parseRest_name {name suffix : List Char} (hname : name ≠ []) (hdot : '.' ∉ name)
    (hsuffix : suffix = [] ∨ ∃ c rest, suffix = '.' :: c :: rest) {prop : Property}
    (hprop : objectSchema.propertyForName (String.ofList name) = some prop)
    (hsortable : isSortableType prop.type = true) :
    parseRest schema keypath objectSchema (name ++ suffix) =
      if prop.type.base = .object then
        if suffix.drop 1 = [] then
          some (.error (message keypath ("property '"
            ++ (objectSchema.name ++ "." ++ String.ofList name)
            ++ "' of type 'object' cannot be the final property in the key path")))
        else
          match schema.find prop.objectType with
          | none => none
          | some target =>
            (parseRest schema keypath target (suffix.drop 1)).map
              (Except.map (prop.tableColumn :: ·))
      else if suffix.drop 1 ≠ [] then
        some (.error (message keypath ("property '"
          ++ (objectSchema.name ++ "." ++ String.ofList name)
          ++ "' of type '" ++ prop.typeString
          ++ "' may only be the final property in the key path")))
      else
        (parseRest schema keypath objectSchema (suffix.drop 1)).map
          (Except.map (prop.tableColumn :: ·)) := by
  have hdots : suffix = [] ∨ ∃ rest, suffix = '.' :: rest :=
    hsuffix.imp_right fun ⟨c, rest, h⟩ => ⟨c :: rest, h⟩
  obtain ⟨htake, hdrop⟩ := takeWhile_name hdot hdots
  obtain ⟨c, cs, hcons⟩ :=
    List.exists_cons_of_ne_nil (List.append_ne_nil_of_left_ne_nil hname suffix)
  have hne : suffix ≠ ['.'] := by
    rcases hsuffix with rfl | ⟨c, rest, rfl⟩ <;> simp
  rw [hcons, parseRest, ← hcons]
  simp only [htake, hdrop, afterName, hname, hne, or_self, if_false, hprop, hsortable,
    Bool.not_true, Bool.false_eq_true]

/-- A name of a path, and what follows it. -/
theorem dotted_cons {prop : Property} {path : List Property} (hpath : path ≠ []) :
    dotted (prop :: path) = prop.name.toList ++ '.' :: dotted path := by
  obtain ⟨prop', path', rfl⟩ := List.exists_cons_of_ne_nil hpath
  rfl

/-- The key path of a path is resolved to its columns. -/
theorem parseRest_dotted {path : List Property} (h : Path schema objectSchema path)
    (hnames : ∀ prop ∈ path, IsName prop.name) :
    parseRest schema keypath objectSchema (dotted path)
      = some (.ok (path.map Property.tableColumn)) := by
  induction h with
  | @value objectSchema prop hprop hsortable hbase =>
    obtain ⟨hname, hdot⟩ := hnames prop List.mem_cons_self
    have hfound : objectSchema.propertyForName (String.ofList prop.name.toList) = some prop := by
      rw [String.ofList_toList, hprop]
    rw [dotted, ← List.append_nil prop.name.toList,
      parseRest_name hname hdot (Or.inl rfl) hfound hsortable, if_neg hbase]
    simp [parseRest, Except.map]
  | @link objectSchema prop target path hprop hsortable hbase htarget hpath ih =>
    obtain ⟨hname, hdot⟩ := hnames prop List.mem_cons_self
    have hfound : objectSchema.propertyForName (String.ofList prop.name.toList) = some prop := by
      rw [String.ofList_toList, hprop]
    have hrest : ∀ p ∈ path, IsName p.name := fun p hp => hnames p (List.mem_cons_of_mem _ hp)
    have hne := dotted_ne_nil hpath.ne_nil hrest
    obtain ⟨c, cs, hcons⟩ := List.exists_cons_of_ne_nil hne
    rw [dotted_cons hpath.ne_nil, parseRest_name hname hdot
      (Or.inr ⟨c, cs, by rw [hcons]⟩) hfound hsortable, if_pos hbase,
      List.drop_one, List.tail_cons, if_neg hne, htarget]
    show (parseRest schema keypath target (dotted path)).map _ = _
    rw [ih hrest]
    rfl

/-- A name is followed by nothing, or by a dot and the rest of the key path. -/
theorem dropWhile_name (rest : List Char) : rest.dropWhile (· != '.') = [] ∨
    rest.dropWhile (· != '.') = '.' :: afterName rest := by
  rw [afterName]
  cases hdrop : rest.dropWhile (· != '.') with
  | nil => exact Or.inl rfl
  | cons c cs =>
    have hne : rest.dropWhile (· != '.') ≠ [] := by rw [hdrop]; exact List.cons_ne_nil c cs
    have hhead := List.head_dropWhile_not (· != '.') hne
    simp only [hdrop, List.head_cons, bne_eq_false_iff_eq] at hhead
    rw [hhead]
    exact Or.inr rfl

/-- The name that stands first is the name of the property that is found. -/
theorem isName_takeWhile {rest : List Char} {prop : Property}
    (hkey : rest.takeWhile (· != '.') ≠ [])
    (hprop : objectSchema.propertyForName (String.ofList (rest.takeWhile (· != '.')))
      = some prop) :
    prop.name.toList = rest.takeWhile (· != '.') ∧ IsName prop.name ∧
      objectSchema.propertyForName prop.name = some prop := by
  have hname : prop.name = String.ofList (rest.takeWhile (· != '.')) :=
    name_of_propertyForName hprop
  have htoList : prop.name.toList = rest.takeWhile (· != '.') := by rw [hname, String.toList_ofList]
  refine ⟨htoList, ⟨?_, ?_⟩, ?_⟩
  · rw [htoList]
    exact hkey
  · rw [htoList]
    intro hdot
    have hne := List.mem_takeWhile_imp hdot
    simp at hne
  · rw [hname]
    exact hprop

/-- The loop ends with a message about the key path, or resolves a path. -/
theorem parseRest_cases (hlinked : schema.Linked) (hobject : objectSchema ∈ schema.objects)
    {rest : List Char} (hrest : rest ≠ []) :
    (∃ reason, parseRest schema keypath objectSchema rest
        = some (.error (message keypath reason))) ∨
      ∃ path, Path schema objectSchema path ∧ (∀ prop ∈ path, IsName prop.name) ∧
        rest = dotted path := by
  fun_induction parseRest schema keypath objectSchema rest with
  | case1 => exact absurd rfl hrest
  | case2 => exact Or.inl ⟨_, rfl⟩
  | case3 => exact Or.inl ⟨_, rfl⟩
  | case4 => exact Or.inl ⟨_, rfl⟩
  | case5 => exact Or.inl ⟨_, rfl⟩
  | case6 objectSchema c cs rest key hkey prop hprop hsortable hbase hafter htarget =>
    -- the class of the link is in the schema
    have hmem := List.mem_of_find?_eq_some hprop
    exact absurd htarget (hlinked objectSchema hobject prop hmem hbase)
  | case7 objectSchema c cs rest key hkey prop hprop hsortable hbase hafter target htarget ih =>
    rw [not_or] at hkey
    rcases ih (List.mem_of_find?_eq_some htarget) hafter with ⟨reason, herror⟩ | ⟨path, hpath⟩
    · exact Or.inl ⟨reason, by rw [herror]; rfl⟩
    · obtain ⟨hpath, hnames, hdotted⟩ := hpath
      obtain ⟨htoList, hname, hfound⟩ := isName_takeWhile hkey.1 hprop
      refine Or.inr ⟨prop :: path, .link hfound (by simpa using hsortable) hbase htarget hpath,
        ?_, ?_⟩
      · intro p hp
        rcases List.mem_cons.mp hp with rfl | hp
        · exact hname
        · exact hnames p hp
      · rw [dotted_cons hpath.ne_nil, htoList, ← hdotted]
        rcases dropWhile_name rest with hnil | hdot
        · rw [afterName, hnil] at hafter
          exact absurd rfl hafter
        · rw [← hdot, List.takeWhile_append_dropWhile]
  | case8 => exact Or.inl ⟨_, rfl⟩
  | case9 objectSchema c cs rest key hkey prop hprop hsortable hbase hafter ih =>
    rw [not_or] at hkey
    obtain ⟨htoList, hname, hfound⟩ := isName_takeWhile hkey.1 hprop
    refine Or.inr ⟨[prop], .value hfound (by simpa using hsortable) hbase, ?_, ?_⟩
    · intro p hp
      rw [List.mem_singleton.mp hp]
      exact hname
    · rw [dotted, htoList]
      have happend := List.takeWhile_append_dropWhile (p := (· != '.')) (l := rest)
      rcases dropWhile_name rest with hnil | hdot
      · rw [hnil, List.append_nil] at happend
        exact happend.symm
      · -- the key path would end with a dot
        rw [not_not.mp hafter] at hdot
        exact absurd hdot hkey.2

end Parse

/-- **A key path is resolved exactly if it is the key path of a path of properties**, to their
    columns; else the message names it.  The end of a validated schema is never read. -/
theorem parseKeypath_iff {schema : Schema} {objectSchema : ObjectSchema} (hlinked : schema.Linked)
    (hobject : objectSchema ∈ schema.objects) (keypath : String) :
    (∀ columns, parseKeypath keypath schema objectSchema = some (.ok columns) ↔
      ∃ path, Path schema objectSchema path ∧ (∀ prop ∈ path, IsName prop.name) ∧
        keypath.toList = dotted path ∧ columns = path.map Property.tableColumn) ∧
    ((∀ columns, parseKeypath keypath schema objectSchema ≠ some (.ok columns)) →
      ∃ reason, parseKeypath keypath schema objectSchema
        = some (.error (message keypath reason))) := by
  have hresolve : ∀ path, Path schema objectSchema path → (∀ prop ∈ path, IsName prop.name) →
      keypath.toList = dotted path → parseKeypath keypath schema objectSchema
        = some (.ok (path.map Property.tableColumn)) := by
    intro path hpath hnames hdotted
    rw [parseKeypath, hdotted, if_neg (dotted_ne_nil hpath.ne_nil hnames),
      parseRest_dotted hpath hnames]
  have hcases : (∃ reason, parseKeypath keypath schema objectSchema
        = some (.error (message keypath reason))) ∨
      ∃ path, Path schema objectSchema path ∧ (∀ prop ∈ path, IsName prop.name) ∧
        keypath.toList = dotted path := by
    by_cases hempty : keypath.toList = []
    · exact Or.inl ⟨"missing property name", by rw [parseKeypath, if_pos hempty]⟩
    · rw [parseKeypath, if_neg hempty]
      exact parseRest_cases hlinked hobject hempty
  constructor
  · intro columns
    constructor
    · intro hcolumns
      rcases hcases with ⟨reason, herror⟩ | ⟨path, hpath, hnames, hdotted⟩
      · rw [herror] at hcolumns
        exact absurd (Option.some.inj hcolumns) (by simp)
      · rw [hresolve path hpath hnames hdotted] at hcolumns
        exact ⟨path, hpath, hnames, hdotted, (Except.ok.inj (Option.some.inj hcolumns)).symm⟩
    · rintro ⟨path, hpath, hnames, hdotted, rfl⟩
      exact hresolve path hpath hnames hdotted
  · intro hnone
    rcases hcases with herror | ⟨path, hpath, hnames, hdotted⟩
    · exact herror
    · exact absurd (hresolve path hpath hnames hdotted) (hnone _)

/-! ### Persons and their friends -/

namespace Sample

/-- A person has a name, a list of nicknames and a friend. -/
def person : ObjectSchema where
  name := "Person"
  persistedProperties :=
    [⟨"name", ⟨.string, false⟩, "", 0⟩, ⟨"nicknames", ⟨.string, true⟩, "", 1⟩,
      ⟨"friend", ⟨.object, false⟩, "Person", 2⟩]
  computedProperties := []

def persons : Schema := ⟨[person]⟩

/-- The links of a person lead to classes of the schema. -/
theorem persons_linked : persons.Linked := by
  intro objectSchema hobject prop hprop hbase
  obtain rfl := List.mem_singleton.mp hobject
  simp only [person, List.append_nil, List.mem_cons, List.not_mem_nil, or_false] at hprop
  rcases hprop with rfl | rfl | rfl
  · simp at hbase
  · simp at hbase
  · simp [persons, person, Schema.find]

/-- The name of the friend of a friend. -/
theorem parseKeypath_friend :
    parseKeypath "friend.friend.name" persons person = some (.ok [2, 2, 0]) := by
  refine ((parseKeypath_iff persons_linked List.mem_cons_self "friend.friend.name").1
    [2, 2, 0]).mpr ⟨[⟨"friend", ⟨.object, false⟩, "Person", 2⟩,
      ⟨"friend", ⟨.object, false⟩, "Person", 2⟩, ⟨"name", ⟨.string, false⟩, "", 0⟩], ?_, ?_, ?_, ?_⟩
  · have hfriend : person.propertyForName "friend"
        = some ⟨"friend", ⟨.object, false⟩, "Person", 2⟩ := rfl
    have hperson : persons.find "Person" = some person := rfl
    have hname : person.propertyForName "name" = some ⟨"name", ⟨.string, false⟩, "", 0⟩ := rfl
    exact .link hfriend rfl rfl hperson (.link hfriend rfl rfl hperson
      (.value hname rfl (by decide)))
  · intro prop hprop
    simp only [List.mem_cons, List.not_mem_nil, or_false] at hprop
    rcases hprop with rfl | rfl | rfl <;> exact ⟨by decide, by decide⟩
  · decide
  · rfl

end Sample

end QBRepository.ObjectStore
