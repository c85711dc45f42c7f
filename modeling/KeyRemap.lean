import KeyRemap.Edit.Json
import KeyRemap.Main
import KeyRemap.Sync.Session
import KeyRemap.Sync.Worker
import KeyRemap.Proofs.Token.Spelling
import KeyRemap.Proofs.Token.Stretch
import KeyRemap.Proofs.Script.Grammar
import KeyRemap.Proofs.Script.Recognition
import KeyRemap.Proofs.Script.Content
import KeyRemap.Proofs.Script.Acceptance
import KeyRemap.Proofs.Layout.Lexemes
import KeyRemap.Proofs.Script.Lexemes
import KeyRemap.Proofs.Layout.Preservation
import KeyRemap.Proofs.Script.Words
import KeyRemap.Proofs.Script.Written
import KeyRemap.Proofs.Script.RoundTrip
import KeyRemap.Proofs.Sync.Run
import KeyRemap.Proofs.Sync.Consistency
import KeyRemap.Proofs.Edit.Outcome
import KeyRemap.Proofs.Edit.Preservation
import KeyRemap.Proofs.Script.Refusal
import KeyRemap.Proofs.Sync.Rollback
import KeyRemap.Proofs.Edit.Duplicates
import KeyRemap.Proofs.Sync.Events
import KeyRemap.Proofs.Edit.Renaming
import KeyRemap.Proofs.Sync.Failure
import KeyRemap.Proofs.Sync.Debounce
import KeyRemap.Proofs.Sync.Batching
import KeyRemap.Proofs.Validation.Verdict
import KeyRemap.Proofs.Token.Places
import KeyRemap.Proofs.Script.Comments
import KeyRemap.Proofs.Script.Grammatical
import KeyRemap.Proofs.Layout.Rows
import KeyRemap.Proofs.Layout.Groups
import KeyRemap.Proofs.Layout.Idempotence
import KeyRemap.Proofs.Layout.Commas
import KeyRemap.Proofs.Token.Lossless
import KeyRemap.Proofs.Script.Attachment
import KeyRemap.Proofs.Script.Blame
import KeyRemap.Proofs.Script.Earliest
import KeyRemap.Proofs.Validation.Independence
import KeyRemap.Proofs.FileStore.Replacement
import KeyRemap.Proofs.Path.Names
import KeyRemap.Proofs.FileStore.Siblings
import KeyRemap.Proofs.FileStore.Mishaps
import KeyRemap.Proofs.Command.Execution
import KeyRemap.Proofs.Command.Formatted
import KeyRemap.Proofs.Edit.Reversal
import KeyRemap.Proofs.Edit.Declaration
import KeyRemap.Proofs.Validation.Repeats
import KeyRemap.Proofs.Validation.Diagnostics
import KeyRemap.Proofs.Edit.Contents
import KeyRemap.Proofs.Edit.Assignment
import KeyRemap.Proofs.Layout.Comments
import KeyRemap.Proofs.Layout.Alignment
import KeyRemap.Proofs.Layout.Tidiness
import KeyRemap.Proofs.Overview.Wildcards
import KeyRemap.Proofs.Text.Distance
import KeyRemap.Proofs.Vocabulary.Suggestion
import KeyRemap.Proofs.Vocabulary.Search
import KeyRemap.Proofs.Json.Spelling
import KeyRemap.Proofs.Json.RoundTrip
import KeyRemap.Proofs.Document.Json
import KeyRemap.Proofs.Script.Extent
import KeyRemap.Proofs.Command.Inspected
import KeyRemap.Proofs.Vocabulary.Listing
import KeyRemap.Proofs.Text.Lines
import KeyRemap.Proofs.Fault.Frame
import KeyRemap.Proofs.Toml.Statements
import KeyRemap.Proofs.Toml.Tables
import KeyRemap.Proofs.Settings.RoundTrip
import KeyRemap.Proofs.Command.Change
import KeyRemap.Proofs.Vocabulary.Identity
import KeyRemap.Proofs.Layout.Joining
import KeyRemap.Proofs.Token.LineEnds
