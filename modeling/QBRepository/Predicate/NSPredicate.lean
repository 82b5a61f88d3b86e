import QBRepository.Predicate.Property

namespace QBRepository

/-!
# `NSPredicate` and its meaning in a store

* `NSPredicate` — the predicates the library builds: the comparison formats over one key path,
  constants and compounds;
* `Store` — a backend: how it reads a key path of a model and compares objects;
* `Store.holds` — the truth value of a predicate.  Compounds are two-valued; a comparison with
  null follows the conditions of the Realm backend (`AnyObject.compare`).
-/

/-- The predicates built by the library; a key path stands for `%K`. -/
inductive NSPredicate (Object : Type) where
  /-- `%K == %@` -/
  | equalTo (key : String) (value : AnyObject Object)
  /-- `%K < %@` -/
  | lessThan (key : String) (value : AnyObject Object)
  /-- `%K IN %@` -/
  | inList (key : String) (values : List (AnyObject Object))
  /-- `%K BETWEEN %@` -/
  | between (key : String) (lower upper : AnyObject Object)
  /-- `%K LIKE %@` -/
  | like (key : String) (pattern : String)
  /-- `%K CONTAINS[cd] %@` -/
  | containsCD (key : String) (string : String)
  | value (value : Bool)
  | and (subpredicates : List (NSPredicate Object))
  | or (subpredicates : List (NSPredicate Object))
  | not (subpredicate : NSPredicate Object)

variable {Object Model : Type}

/-- A condition on two boxed values: `bothNull` decides for two nulls, `condition` for two
    objects; a null and an object never meet it. -/
def AnyObject.compare (bothNull : Bool) (condition : Object → Object → Bool) :
    AnyObject Object → AnyObject Object → Bool
  | .nsNull, .nsNull => bothNull
  | .object a, .object b => condition a b
  | _, _ => false

/-- A backend with its models. -/
structure Store (Object Model : Type) where
  valueForKeyPath : Model → String → AnyObject Object
  equal : Object → Object → Bool
  less : Object → Object → Bool
  like : Object → String → Bool
  containsCD : Object → String → Bool

namespace Store

variable (S : Store Object Model)

/-- `Equal`: two nulls are equal. -/
def isEqual : AnyObject Object → AnyObject Object → Bool := AnyObject.compare true S.equal

/-- `Less`: false as soon as one side is null. -/
def isLess : AnyObject Object → AnyObject Object → Bool := AnyObject.compare false S.less

/-- `LessEqual`. -/
def isLessEqual : AnyObject Object → AnyObject Object → Bool :=
  AnyObject.compare true fun a b => !S.less b a

/-- A condition on strings; null does not meet it. -/
def matchesString (condition : Object → String → Bool) (string : String) :
    AnyObject Object → Bool
  | .nsNull => false
  | .object value => condition value string

mutual

/-- The truth value of a predicate on a model. -/
def holds (model : Model) : NSPredicate Object → Bool
  | .equalTo key value => S.isEqual (S.valueForKeyPath model key) value
  | .lessThan key value => S.isLess (S.valueForKeyPath model key) value
  | .inList key values => values.any (S.isEqual (S.valueForKeyPath model key))
  | .between key lower upper =>
    S.isLessEqual lower (S.valueForKeyPath model key) &&
      S.isLessEqual (S.valueForKeyPath model key) upper
  | .like key pattern => matchesString S.like pattern (S.valueForKeyPath model key)
  | .containsCD key string => matchesString S.containsCD string (S.valueForKeyPath model key)
  | .value value => value
  | .and subpredicates => holdsAll model subpredicates
  | .or subpredicates => holdsAny model subpredicates
  | .not subpredicate => !holds model subpredicate

/-- All predicates hold. -/
def holdsAll (model : Model) : List (NSPredicate Object) → Bool
  | [] => true
  | p :: ps => holds model p && holdsAll model ps

/-- Some predicate holds. -/
def holdsAny (model : Model) : List (NSPredicate Object) → Bool
  | [] => false
  | p :: ps => holds model p || holdsAny model ps

end

end Store

end QBRepository
