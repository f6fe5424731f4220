import Keyspace.Handle
import Keyspace.Query.Step
import Keyspace.Script
import Keyspace.Update.Step
import Keyspace.Wire.Body
import Keyspace.Wire.Reply
import Keyspace.Proofs.Dict.Union
import Keyspace.Proofs.Expression.Path
import Keyspace.Proofs.Expression.Issue
import Keyspace.Proofs.Expression.Meaning
import Keyspace.Proofs.Expression.Closed
import Keyspace.Proofs.World.Sent
import Keyspace.Proofs.Expression.Compiled
import Keyspace.Proofs.Plan.Conditions
import Keyspace.Proofs.Plan.Selection
import Keyspace.Proofs.Schema.Validity
import Keyspace.Proofs.Plan.Answers
import Keyspace.Proofs.Request.Closed
import Keyspace.Proofs.Batch.Sent
import Keyspace.Proofs.Query.Prepared
import Keyspace.Proofs.Batch.Calls
import Keyspace.Proofs.Batch.Tally
import Keyspace.Proofs.Request.Sent
import Keyspace.Proofs.Batch.Complete
import Keyspace.Proofs.Query.Listing
import Keyspace.Proofs.Bytes.Base64
import Keyspace.Proofs.Text.Utf8
import Keyspace.Proofs.Json.Tokens
import Keyspace.Proofs.Json.Shape
import Keyspace.Proofs.Attribute.Tagged
import Keyspace.Proofs.Cursor.RoundTrip
import Keyspace.Proofs.Read.Shape
import Keyspace.Proofs.Query.Paging
import Keyspace.Proofs.Grammar.Formula
import Keyspace.Proofs.Expression.ReadBack
import Keyspace.Proofs.Read.Meaning
import Keyspace.Proofs.Read.Stages
import Keyspace.Proofs.Read.Story
import Keyspace.Proofs.Read.Apart
import Keyspace.Proofs.Read.Merged
import Keyspace.Proofs.Read.Crew
import Keyspace.Proofs.Read.AnyOrder
import Keyspace.Proofs.World.Deadline
import Keyspace.Proofs.Model.Decoding
import Keyspace.Proofs.Query.Deadline
import Keyspace.Proofs.Batch.Deadline
import Keyspace.Proofs.Builder.FirstError
import Keyspace.Proofs.Builder.Query
import Keyspace.Proofs.Builder.Update
import Keyspace.Proofs.Query.Refusals
import Keyspace.Proofs.Query.Resumption
import Keyspace.Proofs.Plan.Positions
import Keyspace.Proofs.Expression.Alike
import Keyspace.Proofs.Request.Form
import Keyspace.Proofs.Plan.Division
import Keyspace.Proofs.Plan.Repeated
import Keyspace.Proofs.Request.Selection
import Keyspace.Proofs.World.Unsent
import Keyspace.Proofs.Handle.Unsent
import Keyspace.Proofs.Expression.Fragments
import Keyspace.Proofs.Expression.Confined
import Keyspace.Proofs.Expression.Calls
import Keyspace.Proofs.Grammar.Edits
import Keyspace.Proofs.Expression.Changes
import Keyspace.Proofs.Builder.Known
import Keyspace.Proofs.Update.Target
import Keyspace.Proofs.Update.Overlap
import Keyspace.Proofs.World.Tries
import Keyspace.Proofs.Json.Read
import Keyspace.Proofs.Cursor.Accepted
import Keyspace.Proofs.Batch.Rounds
import Keyspace.Proofs.World.Abreast
import Keyspace.Proofs.Query.OneKey
import Keyspace.Proofs.Query.FirstValue
import Keyspace.Proofs.Expression.Named
import Keyspace.Proofs.Plan.Whole
import Keyspace.Proofs.Request.Whole
import Keyspace.Proofs.Query.Count
import Keyspace.Proofs.Condition.Spelling
import Keyspace.Proofs.Builder.Spelling
import Keyspace.Proofs.Plan.IndexName
import Keyspace.Proofs.Wire.Value
import Keyspace.Proofs.Wire.Unprocessed
import Keyspace.Proofs.Read.Turns
import Keyspace.Proofs.Query.Limits
import Keyspace.Proofs.Placeholder.Bytes
import Keyspace.Proofs.Placeholder.Longest
import Keyspace.Proofs.Attribute.Distinct
import Keyspace.Proofs.Wire.Members
import Keyspace.Proofs.World.Pauses
