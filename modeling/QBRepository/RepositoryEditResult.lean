import Mathlib.Init

namespace QBRepository

/-!
# `RepositoryEditResult`

The result of `create` and `update` in every repository.  `delete`, `deleteAll` and
`performTranscation` return an optional error instead, modelled by `Option`.
-/

/-- `enum RepositoryEditResult<Model>`, with the type of the thrown errors made explicit. -/
inductive RepositoryEditResult (Error Model : Type) where
  | success (model : Model)
  | error (error : Error)
deriving DecidableEq

end QBRepository
