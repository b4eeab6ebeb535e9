import Dialogue.Main
import Dialogue.Proofs.Rounds
import Dialogue.Proofs.FunctionTurns
import Dialogue.Proofs.Grouping.Attribution
import Dialogue.Proofs.Refusal
import Dialogue.Proofs.Conversation.Endings
import Dialogue.Proofs.Endings
import Dialogue.Proofs.Conversation.Kept
import Dialogue.Proofs.Kept
import Dialogue.Proofs.Conversation.Draws
import Dialogue.Proofs.Json.Renamed
import Dialogue.Proofs.Conversation.Twins
import Dialogue.Proofs.Grouping.Twins
import Dialogue.Proofs.Session
import Dialogue.Proofs.Document.Write
import Dialogue.Proofs.Intact
import Dialogue.Proofs.Conversation.Stable
import Dialogue.Proofs.Stable
import Dialogue.Proofs.Conversation.Handles
import Dialogue.Proofs.Handles
import Dialogue.Proofs.Json.Numeral
import Dialogue.Proofs.Json.Nesting
import Dialogue.Proofs.Json.Reread
import Dialogue.Proofs.Json.Reader
import Dialogue.Proofs.Body.Nesting
import Dialogue.Proofs.Reread
import Dialogue.Proofs.Conversation.Matching
import Dialogue.Proofs.Conversation.Filled
import Dialogue.Proofs.Grouping.Replay
import Dialogue.Proofs.Document.Address
import Dialogue.Proofs.Document.Lens
import Dialogue.Proofs.Document.Frame
import Dialogue.Proofs.Document.Removal
import Dialogue.Proofs.Json.Moved
import Dialogue.Proofs.Spellings
import Dialogue.Proofs.Grouping.Repair
import Dialogue.Proofs.Template.Expansion
import Dialogue.Proofs.Settings
import Dialogue.Proofs.Template.Quotes
import Dialogue.Proofs.Template.Pattern
import Dialogue.Proofs.Conversation.Registry
import Dialogue.Proofs.Commuting
import Dialogue.Proofs.Plan
import Dialogue.Proofs.Grouping.Tally
import Dialogue.Proofs.Conversation.Tally
import Dialogue.Proofs.Log
import Dialogue.Proofs.Account
