import Dialogue.Command.Arguments
import Dialogue.Command.Help
import Dialogue.Command.Record
import Dialogue.Command.Run
import Dialogue.Conjugation.Basic
import Dialogue.Conjugation.Swap
import Dialogue.Conversation.Answer
import Dialogue.Conversation.Basic
import Dialogue.Conversation.Flag
import Dialogue.Conversation.Options
import Dialogue.Main
import Dialogue.Proofs.Script.Draft
import Dialogue.Proofs.Script.Line
import Dialogue.Query
import Dialogue.Report.Basic
import Dialogue.Report.Style
import Dialogue.Script.Basic
import Dialogue.Script.Classic
import Dialogue.Script.Defect
import Dialogue.Script.Draft
import Dialogue.Script.Line
import Dialogue.Script.Notice
import Dialogue.Script.Source
import Dialogue.Selection
import Dialogue.Text.Basic
import Dialogue.Text.Blank
import Dialogue.Text.Lines
import Dialogue.Text.Occurrence
import Dialogue.Proofs.Script.Invariant
import Dialogue.Proofs.Script.Layout
import Dialogue.Proofs.Script.Format
import Dialogue.Proofs.Conversation.Run
import Dialogue.Proofs.Conversation.Rotation
import Dialogue.Proofs.Text.Words
import Dialogue.Proofs.Conjugation.Words
import Dialogue.Proofs.Conversation.Reply
import Dialogue.Proofs.Conjugation.Table
import Dialogue.Proofs.Conversation.Repeat
import Dialogue.Proofs.Script.Source
import Dialogue.Proofs.Conjugation.Scan
import Dialogue.Proofs.Conversation.Access
import Dialogue.Proofs.Script.Append
import Dialogue.Proofs.Conversation.Growth
import Dialogue.Proofs.Conversation.Topics
import Dialogue.Proofs.Conversation.Details
import Dialogue.Proofs.Conversation.ReportedRotation
import Dialogue.Proofs.Conversation.Presentation
import Dialogue.Proofs.Conjugation.Halting
import Dialogue.Proofs.Conjugation.Marks
import Dialogue.Proofs.Conjugation.LastWord
import Dialogue.Proofs.Script.Classic
import Dialogue.Proofs.Script.Defect
import Dialogue.Proofs.Command.Arguments
import Dialogue.Proofs.Command.Session
import Dialogue.Proofs.Command.Outcome
import Dialogue.Proofs.Selection.Cut
import Dialogue.Proofs.Selection.Live
import Dialogue.Proofs.Conjugation.Twice
import Dialogue.Proofs.Conjugation.Untouched
import Dialogue.Proofs.Conversation.Lookup
import Dialogue.Proofs.Script.Warnings
import Dialogue.Proofs.Command.Meaning
import Dialogue.Proofs.Command.Spelling
import Dialogue.Proofs.Conjugation.Replace
import Dialogue.Proofs.Report.Colour
import Dialogue.Proofs.Report.Details
import Dialogue.Proofs.Script.Texts
import Dialogue.Proofs.Conversation.Legible
import Dialogue.Proofs.Command.Display
