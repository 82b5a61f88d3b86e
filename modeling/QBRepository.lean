import QBRepository.Lib.NamedStore
import QBRepository.FileSystem.Refinement
import QBRepository.FileSystem.Restart
import QBRepository.FileSystem.Crash
import QBRepository.FileSystem.Separation
import QBRepository.FileSystem.Deletion
import QBRepository.FileSystem.DeleteAll
import QBRepository.Predicate.Optional
import QBRepository.CoreData.Rejected
import QBRepository.CoreData.Journal
import QBRepository.CoreData.History
import QBRepository.Lib.Outcome
import QBRepository.Lib.Worklist
import QBRepository.Realm.Cycles
import QBRepository.Realm.Hashing
import QBRepository.Realm.Frame
import QBRepository.Realm.Orphans
import QBRepository.Realm.Transaction
import QBRepository.Realm.Loss
import QBRepository.Realm.Identity
import QBRepository.Realm.Batches
import QBRepository.Realm.Results
import QBRepository.Realm.TableRun
import QBRepository.Realm.SortKeys
import QBRepository.Realm.QueryMeaning
import QBRepository.Elements.Distinct
import QBRepository.Elements.Selection
import QBRepository.Predicate.Compound
import QBRepository.Predicate.Comparisons
import QBRepository.Predicate.Matching
import QBRepository.FileSystem.Listing
import QBRepository.FileSystem.Provenance
import QBRepository.Rx.RxRepository
import QBRepository.Interchange
