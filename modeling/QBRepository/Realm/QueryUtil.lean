import QBRepository.Lib.Fluent
import QBRepository.Predicate.NSPredicate
import QBRepository.Realm.KeyPath

namespace QBRepository.QueryUtil

/-!
# Predicates as queries of a Realm

A Realm translates the predicate of a filter into calls of its query builder.  It resolves the key
paths in its schema, checks the constants against the types of the properties, and throws on what
it does not support.

* `RLMProperty`, `RLMObjectSchema`, `RLMSchema` — what the translation reads of the schema;
* `FoundationObjects` — what it asks of the objects that stand in a predicate;
* `Expression` — the conditions it adds; `RealmQuery` — the calls it has made;
* `QueryBuilder.applyPredicate`, `QueryBuilder.predicateToQuery` — the translation.
-/

open ObjectStore (BaseType)

/-- `NSException` -/
structure NSException where
  name : String
  reason : String
deriving DecidableEq

/-! ### The schema -/

/-- `RLMProperty` -/
structure RLMProperty where
  name : String
  type : BaseType
  array : Bool
  optional : Bool
  objectClassName : String
deriving DecidableEq

/-- `RLMObjectSchema`; a class that declares a property twice is rejected. -/
structure RLMObjectSchema where
  className : String
  properties : List RLMProperty
  computedProperties : List RLMProperty
  nodup : ((properties ++ computedProperties).map RLMProperty.name).Nodup
  named : ∀ property ∈ properties ++ computedProperties, property.name ≠ ""

/-- `RLMSchema` -/
structure RLMSchema where
  objectSchema : List RLMObjectSchema

/-- `objectForKeyedSubscript:` of an object schema -/
def RLMObjectSchema.propertyForName (objectSchema : RLMObjectSchema) (key : String) :
    Option RLMProperty :=
  (objectSchema.properties ++ objectSchema.computedProperties).find?
    fun property => property.name == key

/-- A property is found by its name. -/
theorem name_of_propertyForName {objectSchema : RLMObjectSchema} {key : String}
    {property : RLMProperty} (h : objectSchema.propertyForName key = some property) :
    property.name = key := by
  have hbeq := List.find?_some h
  exact eq_of_beq hbeq

/-- `objectForKeyedSubscript:` of a schema -/
def RLMSchema.schemaForClassName (schema : RLMSchema) (className : String) :
    Except NSException RLMObjectSchema :=
  match schema.objectSchema.find? fun objectSchema => objectSchema.className == className with
  | some objectSchema => .ok objectSchema
  | none =>
    .error ⟨"RLMException", "Object type '" ++ className ++ "' not managed by the Realm"⟩

/-- A class is found where the schema has it. -/
theorem schemaForClassName_eq_ok {schema : RLMSchema} {name : String} {target : RLMObjectSchema} :
    schema.schemaForClassName name = .ok target ↔
      schema.objectSchema.find? (fun objectSchema => objectSchema.className == name)
        = some target := by
  rw [RLMSchema.schemaForClassName]
  cases schema.objectSchema.find? (fun objectSchema => objectSchema.className == name) with
  | none => simp
  | some target' => simp

/-- A class is found by its name. -/
theorem className_of_schemaForClassName {schema : RLMSchema} {name : String}
    {target : RLMObjectSchema} (h : schema.schemaForClassName name = .ok target) :
    target.className = name := by
  have hbeq := List.find?_some (schemaForClassName_eq_ok.mp h)
  exact eq_of_beq hbeq

/-- `RLMTypeToString` -/
def typeToString : BaseType → String
  | .string => "string"
  | .int => "int"
  | .bool => "bool"
  | .date => "date"
  | .data => "data"
  | .double => "double"
  | .float => "float"
  | .any => "any"
  | .object => "object"
  | .linkingObjects => "linking objects"

/-! ### The objects of a predicate -/

/-- A number; `fitsFloat` if it is at most `FLT_MAX` in size, or not a number. -/
structure NSNumber where
  objCType : Char
  intValue : Int
  fitsFloat : Bool

/-- The class of an object, as far as it is asked for. -/
inductive ObjectClass where
  | nsString
  | nsNumber (number : NSNumber)
  | nsDate
  | nsData
  | rlmObject (className : String)
  | other

/-- What is asked of the objects of Foundation. -/
structure FoundationObjects (Object : Type) where
  classOf : Object → ObjectClass
  /-- A managed object of another Realm. -/
  isFromElsewhere : Object → Bool
  description : AnyObject Object → String
  nsString : String → Object
  /-- `RLMStringDataWithNSString` -/
  stringData : Object → String
  classOf_nsString : ∀ string, classOf (nsString string) = .nsString
  stringData_nsString : ∀ string, stringData (nsString string) = string

namespace NSNumber

/-- `numberIsInteger` -/
def isInteger (number : NSNumber) : Bool :=
  number.objCType ∈ ['B', 'c', 's', 'i', 'l', 'q', 'S', 'I', 'L', 'Q']

/-- `numberIsBool` -/
def isBool (number : NSNumber) : Bool :=
  if number.objCType == 'c' then true
  else if number.isInteger then decide (number.intValue = 0 ∨ number.intValue = 1)
  else false

/-- `numberIsFloat` -/
def isFloat (number : NSNumber) : Bool :=
  number.objCType ∈ ['f', 's', 'i', 'l', 'q', 'S', 'I', 'L', 'Q'] ||
    (number.objCType == 'd' && number.fitsFloat)

/-- `numberIsDouble` -/
def isDouble (number : NSNumber) : Bool :=
  number.objCType ∈ ['d', 'f', 's', 'i', 'l', 'q', 'S', 'I', 'L', 'Q']

end NSNumber

namespace FoundationObjects

variable {Object : Type} (foundation : FoundationObjects Object)

/-- `value_of_type`, of a string or null -/
def stringDataOf : AnyObject Object → Option String
  | .nsNull => none
  | .object string => some (foundation.stringData string)

/-- `RLMIsObjectValidForProperty`, of a property that is no array -/
def isObjectValidForProperty (value : AnyObject Object) (property : RLMProperty) : Bool :=
  match value with
  | .nsNull => property.optional || property.type == .linkingObjects
  | .object object =>
    match property.type, foundation.classOf object with
    | .string, .nsString => true
    | .bool, .nsNumber number => number.isBool
    | .date, .nsDate => true
    | .int, .nsNumber number => number.isInteger
    | .float, .nsNumber number => number.isFloat
    | .double, .nsNumber number => number.isDouble
    | .data, .nsData => true
    | .linkingObjects, _ => true
    | .object, .rlmObject className => className == property.objectClassName
    | _, _ => false

end FoundationObjects

/-! ### Columns -/

/-- `KeyPath` -/
structure RealmKeyPath where
  links : List RLMProperty
  property : RLMProperty
  containsToManyRelationship : Bool

/-- `ColumnReference` -/
structure ColumnReference where
  links : List RLMProperty
  property : RLMProperty
deriving DecidableEq

/-- Both parts of a computation that succeeds succeed. -/
theorem bind_eq_ok {ε α β : Type} {x : Except ε α} {f : α → Except ε β} {b : β}
    (h : (x >>= f) = .ok b) : ∃ a, x = .ok a ∧ f a = .ok b := by
  cases x with
  | error e => cases h
  | ok a => exact ⟨a, rfl, h⟩

/-- What follows a dot is shorter. -/
theorem length_of_dropWhile {rest rest' : List Char} {c : Char}
    (h : rest.dropWhile (· != '.') = c :: rest') : rest'.length < rest.length := by
  have hle := (List.dropWhile_suffix (l := rest) (· != '.')).length_le
  rw [h, List.length_cons] at hle
  omega

/-- The loop of `key_path_from_string`, on what is left of the key path. -/
def keyPathFromRest (schema : RLMSchema) (objectSchema : RLMObjectSchema) (rest : List Char) :
    Except NSException RealmKeyPath :=
  let propertyName := String.ofList (rest.takeWhile (· != '.'))
  match objectSchema.propertyForName propertyName with
  | none =>
    .error ⟨"Invalid property name",
      "Property '" ++ propertyName ++ "' not found in object of type '"
        ++ objectSchema.className ++ "'"⟩
  | some property =>
    match _hdrop : rest.dropWhile (· != '.') with
    | [] => .ok ⟨[], property, property.array⟩
    | _ :: rest' =>
      if property.type = .object ∨ property.type = .linkingObjects then do
        let target ← schema.schemaForClassName property.objectClassName
        let keyPath ← keyPathFromRest schema target rest'
        return ⟨property :: keyPath.links, keyPath.property,
          property.array || keyPath.containsToManyRelationship⟩
      else
        .error ⟨"Invalid value",
          "Property '" ++ propertyName ++ "' is not a link in object of type '"
            ++ objectSchema.className ++ "'"⟩
termination_by rest.length
decreasing_by exact length_of_dropWhile _hdrop

section KeyPaths

variable {schema : RLMSchema} {objectSchema : RLMObjectSchema}

/-- The last name of a key path. -/
theorem keyPathFromRest_last {rest : List Char} {property : RLMProperty}
    (hdrop : rest.dropWhile (· != '.') = [])
    (hproperty : objectSchema.propertyForName (String.ofList (rest.takeWhile (· != '.')))
      = some property) :
    keyPathFromRest schema objectSchema rest = .ok ⟨[], property, property.array⟩ := by
  rw [keyPathFromRest]
  simp only [hproperty]
  split
  · rfl
  · rename_i hcons
    rw [hdrop] at hcons
    cases hcons

/-- A name that a dot follows is that of a link. -/
theorem keyPathFromRest_link {rest rest' : List Char} {c : Char} {property : RLMProperty}
    {target : RLMObjectSchema} {keyPath : RealmKeyPath}
    (hdrop : rest.dropWhile (· != '.') = c :: rest')
    (hproperty : objectSchema.propertyForName (String.ofList (rest.takeWhile (· != '.')))
      = some property) (hlink : property.type = .object)
    (htarget : schema.schemaForClassName property.objectClassName = .ok target)
    (hkeyPath : keyPathFromRest schema target rest' = .ok keyPath) :
    keyPathFromRest schema objectSchema rest = .ok ⟨property :: keyPath.links, keyPath.property,
      property.array || keyPath.containsToManyRelationship⟩ := by
  rw [keyPathFromRest]
  simp only [hproperty]
  split
  · rename_i hnil
    rw [hdrop] at hnil
    cases hnil
  · rename_i hcons
    rw [hdrop] at hcons
    cases hcons
    rw [if_pos (Or.inl hlink), htarget]
    show (keyPathFromRest schema target rest' >>= _) = _
    rw [hkeyPath]
    rfl

end KeyPaths

/-- `key_path_from_string` -/
def keyPathFromString (schema : RLMSchema) (objectSchema : RLMObjectSchema) (keyPath : String) :
    Except NSException RealmKeyPath :=
  keyPathFromRest schema objectSchema keyPath.toList

/-- `column_reference_from_key_path`, of a key path that is not under `ANY` -/
def columnReferenceFromKeyPath (schema : RLMSchema) (objectSchema : RLMObjectSchema)
    (keyPathString : String) : Except NSException ColumnReference := do
  let keyPath ← keyPathFromString schema objectSchema keyPathString
  if keyPath.containsToManyRelationship then
    .error ⟨"Invalid predicate",
      "Key paths that include an array property must use aggregate operations"⟩
  else
    return ⟨keyPath.links, keyPath.property⟩

/-- The column of a key path that is not an array's. -/
theorem columnReference_eq_ok {schema : RLMSchema} {objectSchema : RLMObjectSchema}
    {keyPathString : String} {column : ColumnReference} :
    columnReferenceFromKeyPath schema objectSchema keyPathString = .ok column ↔
      keyPathFromRest schema objectSchema keyPathString.toList
        = .ok ⟨column.links, column.property, false⟩ := by
  rw [columnReferenceFromKeyPath, keyPathFromString]
  cases keyPathFromRest schema objectSchema keyPathString.toList with
  | error e =>
    refine ⟨fun h => ?_, fun h => ?_⟩
    · cases h
    · cases h
  | ok keyPath =>
    obtain ⟨links, property, containsToManyRelationship⟩ := keyPath
    cases containsToManyRelationship with
    | true =>
      refine ⟨fun h => ?_, fun h => ?_⟩
      · cases h
      · cases h
    | false =>
      refine ⟨fun h => ?_, fun h => ?_⟩
      · cases h
        rfl
      · cases h
        rfl

/-! ### Constraints -/

/-- `NSPredicateOperatorType`; `contains` stands with the options `[cd]`, the others with none. -/
inductive PredicateOperatorType where
  | lessThan
  | lessThanOrEqualTo
  | greaterThanOrEqualTo
  | equalTo
  | like
  | contains
deriving DecidableEq

/-- `operatorName` -/
def operatorName : PredicateOperatorType → String
  | .lessThan => "<"
  | .lessThanOrEqualTo => "<="
  | .greaterThanOrEqualTo => ">="
  | .equalTo => "=="
  | .like => "LIKE"
  | .contains => "CONTAINS"

/-- The conditions a column is compared with a constant by. -/
inductive Condition where
  | less
  | lessEqual
  | greaterEqual
  | equal
deriving DecidableEq

/-- The expressions that are added to a query. -/
inductive Expression (Object : Type) where
  | trueExpression
  | falseExpression
  | compare (condition : Condition) (column : ColumnReference) (value : AnyObject Object)
  | like (column : ColumnReference) (pattern : Option String)
  | containsSubstring (column : ColumnReference) (string : Option String)
deriving DecidableEq

variable {Object : Type}

/-- A `Query`, by the calls that have been made on it. -/
abbrev RealmQuery (Object : Type) := List (Fluent.Call (Expression Object))

/-- What a function of the builder does to the query; it may throw. -/
abbrev Step (Object : Type) := Fluent.Step NSException (Expression Object)

/-- `and_query`, with an expression -/
def andQuery (expression : Expression Object) : Step Object :=
  fun query => .ok (query ++ [.add expression])

/-- `add_numeric_constraint` -/
def addNumericConstraint (datatype : BaseType) (operatorType : PredicateOperatorType)
    (column : ColumnReference) (value : AnyObject Object) : Step Object :=
  match operatorType with
  | .lessThan => andQuery (.compare .less column value)
  | .lessThanOrEqualTo => andQuery (.compare .lessEqual column value)
  | .greaterThanOrEqualTo => andQuery (.compare .greaterEqual column value)
  | .equalTo => andQuery (.compare .equal column value)
  | .like | .contains => fun _ =>
    .error ⟨"Invalid operator type", "Operator '" ++ operatorName operatorType
      ++ "' not supported for type " ++ typeToString datatype⟩

/-- `add_bool_constraint` -/
def addBoolConstraint (operatorType : PredicateOperatorType) (column : ColumnReference)
    (value : AnyObject Object) : Step Object :=
  match operatorType with
  | .equalTo => andQuery (.compare .equal column value)
  | _ => fun _ =>
    .error ⟨"Invalid operator type",
      "Operator '" ++ operatorName operatorType ++ "' not supported for bool type"⟩

/-- `add_substring_constraint` -/
def addSubstringConstraint (value : Option String) (condition : Expression Object) :
    Step Object :=
  match value with
  | none => andQuery .falseExpression
  | some string => andQuery (if string = "" then .falseExpression else condition)

/-- `add_string_constraint` -/
def addStringConstraint (foundation : FoundationObjects Object)
    (operatorType : PredicateOperatorType) (column : ColumnReference) (value : AnyObject Object) :
    Step Object :=
  match operatorType with
  | .contains =>
    addSubstringConstraint (foundation.stringDataOf value)
      (.containsSubstring column (foundation.stringDataOf value))
  | .equalTo => andQuery (.compare .equal column value)
  | .like => andQuery (.like column (foundation.stringDataOf value))
  | _ => fun _ =>
    .error ⟨"Invalid operator type",
      "Operator '" ++ operatorName operatorType ++ "' not supported for string type"⟩

/-- `add_binary_constraint` -/
def addBinaryConstraint (operatorType : PredicateOperatorType) (column : ColumnReference)
    (value : AnyObject Object) : Step Object :=
  if column.links ≠ [] then fun _ =>
    .error ⟨"Unsupported operator", "NSData properties cannot be queried over an object link."⟩
  else
    match operatorType with
    | .equalTo => andQuery (.compare .equal column value)
    -- a string, the constant of `CONTAINS`, is not valid for data
    | _ => fun _ =>
      .error ⟨"Invalid operator type",
        "Operator '" ++ operatorName operatorType ++ "' not supported for binary type"⟩

/-- `add_link_constraint` -/
def addLinkConstraint (operatorType : PredicateOperatorType) (column : ColumnReference)
    (value : AnyObject Object) : Step Object :=
  match operatorType with
  | .equalTo => andQuery (.compare .equal column value)
  | _ => fun _ =>
    .error ⟨"Invalid operator type",
      "Only 'Equal' and 'Not Equal' operators supported for object comparison"⟩

/-- `add_constraint`, of a column and a constant -/
def addConstraint (foundation : FoundationObjects Object) (operatorType : PredicateOperatorType)
    (column : ColumnReference) (value : AnyObject Object) : Step Object :=
  match column.property.type with
  | .bool => addBoolConstraint operatorType column value
  | .date => addNumericConstraint .date operatorType column value
  | .double => addNumericConstraint .double operatorType column value
  | .float => addNumericConstraint .float operatorType column value
  | .int => addNumericConstraint .int operatorType column value
  | .string => addStringConstraint foundation operatorType column value
  | .data => addBinaryConstraint operatorType column value
  | .object => addLinkConstraint operatorType column value
  | .linkingObjects => addLinkConstraint operatorType column value
  | .any => fun _ =>
    .error ⟨"Unsupported predicate value type",
      "Object type " ++ typeToString .any ++ " not supported"⟩

/-- `validate_property_value`; `clause` stands in its message behind the type. -/
def validatePropertyValue (foundation : FoundationObjects Object) (column : ColumnReference)
    (value : AnyObject Object) (clause : String) (objectSchema : RLMObjectSchema)
    (keyPath : String) : Except NSException Unit :=
  if foundation.isObjectValidForProperty value column.property then
    match value with
    | .object object =>
      if foundation.isFromElsewhere object then
        .error ⟨"Invalid value origin", "Object must be from the Realm being queried"⟩
      else .ok ()
    | .nsNull => .ok ()
  else
    .error ⟨"Invalid value", "Expected object of type " ++ typeToString column.property.type
      ++ clause ++ " for property '" ++ keyPath ++ "' on object of type '"
      ++ objectSchema.className ++ "', but received: " ++ foundation.description value⟩

/-- The steps, one after the other. -/
def inSequence (steps : List (Step Object)) : Step Object :=
  fun query => steps.foldlM (fun query step => step query) query

/-- The loop of `process_or_group`; `first` before the first item. -/
def orEach (first : Bool) : List (Step Object) → Step Object
  | [] => fun query => .ok query
  | step :: steps => fun query => do
    let query ← step (if first then query else query ++ [.or])
    orEach false steps query

/-- `process_or_group` -/
def processOrGroup (steps : List (Step Object)) : Step Object := fun query => do
  let query ← orEach true steps (query ++ [.group])
  let query ← if steps.isEmpty then andQuery .falseExpression query else .ok query
  return query ++ [.endGroup]

/-- `add_between_constraint` -/
def addBetweenConstraint (foundation : FoundationObjects Object) (column : ColumnReference)
    (lower upper : AnyObject Object) : Step Object := fun query => do
  if foundation.isObjectValidForProperty lower column.property &&
      foundation.isObjectValidForProperty upper column.property then
    let query ← addConstraint foundation .greaterThanOrEqualTo column lower (query ++ [.group])
    let query ← addConstraint foundation .lessThanOrEqualTo column upper query
    return query ++ [.endGroup]
  else
    .error ⟨"Invalid value", "NSArray objects must be of type "
      ++ typeToString column.property.type ++ " for BETWEEN operations"⟩

/-! ### Predicates -/

/-- What a comparison predicate asks of its key path. -/
inductive Comparison (Object : Type) where
  | compare (operatorType : PredicateOperatorType) (value : AnyObject Object)
  | isIn (values : List (AnyObject Object))
  | between (lower upper : AnyObject Object)

/-- `QueryBuilder`; it has a part of its own for key paths with a collection operator. -/
structure QueryBuilder (Object : Type) where
  foundation : FoundationObjects Object
  schema : RLMSchema
  applyCollectionOperatorExpression : RLMObjectSchema → String → Comparison Object → Step Object

namespace QueryBuilder

variable (builder : QueryBuilder Object) (objectSchema : RLMObjectSchema)

/-- `apply_value_expression` -/
def applyValueExpression (keyPath : String) (comparison : Comparison Object) : Step Object :=
  if '@' ∈ keyPath.toList then
    builder.applyCollectionOperatorExpression objectSchema keyPath comparison
  else fun query => do
    let column ← columnReferenceFromKeyPath builder.schema objectSchema keyPath
    match comparison with
    | .between lower upper => addBetweenConstraint builder.foundation column lower upper query
    | .isIn values =>
      processOrGroup (values.map fun item query => do
        validatePropertyValue builder.foundation column item " in IN clause" objectSchema keyPath
        addConstraint builder.foundation .equalTo column item query) query
    | .compare operatorType value => do
      validatePropertyValue builder.foundation column value "" objectSchema keyPath
      addConstraint builder.foundation operatorType column value query

mutual

/-- `apply_predicate` -/
def applyPredicate : NSPredicate Object → Step Object
  | .and [] => andQuery .trueExpression
  | .and (p :: ps) => fun query => do
    let query ← inSequence (applyEach (p :: ps)) (query ++ [.group])
    return query ++ [.endGroup]
  | .or subpredicates => processOrGroup (applyEach subpredicates)
  | .not subpredicate => fun query => applyPredicate subpredicate (query ++ [.not])
  | .equalTo key value => builder.applyValueExpression objectSchema key (.compare .equalTo value)
  | .lessThan key value =>
    builder.applyValueExpression objectSchema key (.compare .lessThan value)
  | .inList key values => builder.applyValueExpression objectSchema key (.isIn values)
  | .between key lower upper =>
    builder.applyValueExpression objectSchema key (.between lower upper)
  | .like key pattern =>
    builder.applyValueExpression objectSchema key
      (.compare .like (.object (builder.foundation.nsString pattern)))
  | .containsCD key string =>
    builder.applyValueExpression objectSchema key
      (.compare .contains (.object (builder.foundation.nsString string)))
  | .value true => andQuery .trueExpression
  | .value false => andQuery .falseExpression

/-- A step for each of the predicates. -/
def applyEach : List (NSPredicate Object) → List (Step Object)
  | [] => []
  | p :: ps => applyPredicate p :: applyEach ps

end

/-- `RLMPredicateToQuery`; `validate` is the one of the core. -/
def predicateToQuery (validate : RealmQuery Object → String) (predicate : NSPredicate Object) :
    Except NSException (RealmQuery Object) := do
  let query ← builder.applyPredicate objectSchema predicate []
  if validate query = "" then return query
  else .error ⟨"Invalid query", validate query⟩

end QueryBuilder

/-! ### Persons and their friends -/

namespace Sample

def number : RLMProperty := ⟨"number", .int, false, false, ""⟩

def friend : RLMProperty := ⟨"friend", .object, false, true, "Person"⟩

/-- A person has a number and a friend. -/
def person : RLMObjectSchema where
  className := "Person"
  properties := [number, friend]
  computedProperties := []
  nodup := by decide
  named := by decide

def persons : RLMSchema := ⟨[person]⟩

/-- The number of a friend. -/
theorem columnReference_friendNumber :
    columnReferenceFromKeyPath persons person "friend.number" = .ok ⟨[friend], number⟩ := by
  have hnumber : keyPathFromRest persons person "number".toList = .ok ⟨[], number, false⟩ :=
    keyPathFromRest_last rfl rfl
  have hdrop : "friend.number".toList.dropWhile (· != '.') = '.' :: "number".toList := rfl
  exact columnReference_eq_ok.mpr (keyPathFromRest_link hdrop rfl rfl rfl hnumber)

end Sample

end QBRepository.QueryUtil
