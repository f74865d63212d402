import ComponentProjects.FileTree.Memory
import ComponentProjects.Main
import ComponentProjects.Proofs.Path.Sameness
import ComponentProjects.Registry
import ComponentProjects.Proofs.Host.Loading
import ComponentProjects.Proofs.Session.Update
import ComponentProjects.Proofs.Session.Rollback
import ComponentProjects.Proofs.Session.Step
import ComponentProjects.Proofs.Session.Course
import ComponentProjects.Proofs.Session.Restart
import ComponentProjects.Proofs.Session.Answers
import ComponentProjects.Proofs.Session.Dialects
import ComponentProjects.Proofs.Session.Versions
import ComponentProjects.Proofs.Path.Converted
import ComponentProjects.Proofs.Import.Found
import ComponentProjects.Proofs.Import.Spelling
import ComponentProjects.Proofs.Import.Memory
import ComponentProjects.Proofs.Noted
import ComponentProjects.Proofs.Project.Degrading
import ComponentProjects.Proofs.Project.Precedence
import ComponentProjects.Proofs.Session.Steady
import ComponentProjects.Proofs.Glob.Base
import ComponentProjects.Proofs.Project.Selecting
import ComponentProjects.Proofs.Registry.Opening
import ComponentProjects.Proofs.Registry.Course
import ComponentProjects.Proofs.Registry.Ledger
import ComponentProjects.Proofs.Registry.Spelling
import ComponentProjects.Proofs.Json.Decorating
import ComponentProjects.Proofs.Glob.Fitting
import ComponentProjects.Proofs.Glob.Excluding
import ComponentProjects.Proofs.Session.Unsaved
import ComponentProjects.Proofs.Session.Asking
import ComponentProjects.Proofs.Session.Deletion
import ComponentProjects.Proofs.Import.Ordered
import ComponentProjects.Proofs.Session.Twins
import ComponentProjects.Proofs.Path.Normal
import ComponentProjects.Proofs.Project.Rooting
import ComponentProjects.Proofs.Session.Publishing
import ComponentProjects.Proofs.Project.Nearest
import ComponentProjects.Proofs.Project.Sharing
import ComponentProjects.Proofs.Path.Recognising
import ComponentProjects.Proofs.Session.Tracking
import ComponentProjects.Proofs.Session.Listing
import ComponentProjects.Proofs.FileTree.Views
import ComponentProjects.Proofs.Path.Canonical
import ComponentProjects.Proofs.Session.Filing
