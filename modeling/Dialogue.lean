import Dialogue.Arena
import Dialogue.Beat
import Dialogue.Choice
import Dialogue.Document
import Dialogue.Document.Json
import Dialogue.Document.Parser
import Dialogue.Event
import Dialogue.Expr
import Dialogue.Expr.Evaluation
import Dialogue.Expr.Json
import Dialogue.Expr.Parser
import Dialogue.Json
import Dialogue.Json.Fields
import Dialogue.Json.Numeral
import Dialogue.Json.Printer
import Dialogue.Json.Reader
import Dialogue.Json.Written
import Dialogue.Memory
import Dialogue.Memory.Json
import Dialogue.Number.Binary
import Dialogue.Number.Decimal
import Dialogue.Number.Layout
import Dialogue.Number.Reading
import Dialogue.ParseError
import Dialogue.Proofs.Arena
import Dialogue.Proofs.Memory
import Dialogue.Proofs.Operation
import Dialogue.Proofs.Options
import Dialogue.Proofs.Plain
import Dialogue.Proofs.Recording
import Dialogue.Proofs.Returning
import Dialogue.Proofs.SingleUse
import Dialogue.Proofs.Snapshot
import Dialogue.Proofs.Stack
import Dialogue.Proofs.Visits
import Dialogue.Proofs.Walk
import Dialogue.Random
import Dialogue.Script
import Dialogue.Session
import Dialogue.Template
import Dialogue.Text.Alphabetic
import Dialogue.Text.Blank
import Dialogue.Text.CharClass
import Dialogue.Text.Lowercase
import Dialogue.Text.Numeric
import Dialogue.Text.Word
import Dialogue.Token
import Dialogue.Token.Feed
import Dialogue.Token.Parser
import Dialogue.Token.Progress
import Dialogue.Token.Scanner
import Dialogue.Token.Source
import Dialogue.Token.Stream
import Dialogue.Value
import Dialogue.Variation
import Dialogue.VariationMode
import Dialogue.Proofs.Numbering
import Dialogue.Proofs.Collision
import Dialogue.Proofs.Consumption
import Dialogue.Proofs.Grammar
import Dialogue.Proofs.Texts
import Dialogue.Proofs.WellFormed
import Dialogue.Proofs.Pulls
import Dialogue.Proofs.Balance
import Dialogue.Proofs.Filled
import Dialogue.Proofs.Allowance
import Dialogue.Proofs.Twinning
import Dialogue.Proofs.LineEnds
import Dialogue.Proofs.FinalNewline
import Dialogue.Proofs.Comments
import Dialogue.Proofs.Numerals
import Dialogue.Proofs.JsonText
import Dialogue.Proofs.Records
import Dialogue.Proofs.Interchange
import Dialogue.Proofs.Saving
import Dialogue.Proofs.Translation
import Dialogue.Proofs.Diverts
import Dialogue.Proofs.Targets
import Dialogue.Proofs.Calls
import Dialogue.Proofs.Delivery
import Dialogue.Proofs.ChangeLog
import Dialogue.Proofs.Faults
import Dialogue.Proofs.Seeds
import Dialogue.Proofs.Listing
import Dialogue.Proofs.Choosing
import Dialogue.Proofs.Refusal
import Dialogue.Proofs.Ending
import Dialogue.Proofs.Retries
import Dialogue.Proofs.Spelling
import Dialogue.Proofs.Places
import Dialogue.Proofs.Expected
import Dialogue.Proofs.OptionLines
import Dialogue.Proofs.Escaping
import Dialogue.Proofs.Placeholders
import Dialogue.Proofs.Meaning
import Dialogue.Proofs.Chains
import Dialogue.Proofs.Actions
import Dialogue.Proofs.Lexical
import Dialogue.Proofs.Registration
import Dialogue.Proofs.KeyOrder
import Dialogue.Proofs.NodeTypes
import Dialogue.Proofs.Draws
import Dialogue.Proofs.Cursors
