import Ancestry.Candidates
import Ancestry.Hover
import Ancestry.Log.Template
import Ancestry.Main
import Ancestry.Session.Schedule
import Ancestry.Proofs.Session.View
import Ancestry.Proofs.Session.Reachability
import Ancestry.Proofs.Session.DirectCalls
import Ancestry.Proofs.Session.Run
import Ancestry.Proofs.Session.Freshness
import Ancestry.Proofs.Session.StrictImporters
import Ancestry.Proofs.Session.Transparency
import Ancestry.Proofs.Session.Commuting
import Ancestry.Proofs.Session.Deletion
import Ancestry.Proofs.Session.Reports
import Ancestry.Proofs.Session.Faithful
import Ancestry.Proofs.Session.Underway
import Ancestry.Proofs.Session.Completion
import Ancestry.Proofs.Session.ScheduleIndependence
import Ancestry.Proofs.Source.WrittenCalls
import Ancestry.Proofs.Source.ObjectLiterals
import Ancestry.Proofs.Source.Decomposition
import Ancestry.Proofs.Watcher.Hearing
import Ancestry.Proofs.Watcher.Agreement
import Ancestry.Proofs.Source.ImportStatements
import Ancestry.Proofs.Server.Replies
import Ancestry.Proofs.Session.Debts
import Ancestry.Proofs.Session.Counters
import Ancestry.Proofs.Source.Captures
import Ancestry.Proofs.Source.CallEntries
import Ancestry.Proofs.Source.Comments
import Ancestry.Proofs.Source.Pages
import Ancestry.Proofs.Source.ListedNames
import Ancestry.Proofs.Session.Naming
import Ancestry.Proofs.Session.Cost
import Ancestry.Proofs.Session.Repetition
import Ancestry.Proofs.Session.Pairing
import Ancestry.Proofs.Ignore.Directories
import Ancestry.Proofs.Disk.Enumeration
import Ancestry.Proofs.Server.Starting
import Ancestry.Proofs.Server.Answers
import Ancestry.Proofs.Settings.Selectors
import Ancestry.Proofs.Yaml.Keys
import Ancestry.Proofs.Settings.Merging
import Ancestry.Proofs.Watcher.Callbacks
import Ancestry.Proofs.Source.PairSpans
