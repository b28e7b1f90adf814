import RustX.Workflow.Scope
import RustX.Workflow.ReturnOrder
import RustX.Workflow.Iteration
import RustX.Workflow.Assigner
import RustX.Workflow.InferenceRefinement
import RustX.Model.ChatContract
import RustX.Model.AnthropicContract
import RustX.Model.ResponsesContract
import RustX.Model.CorrelationFaithful
import RustX.Publication.Coalescer
import RustX.Recovery.Permission
import RustX.Inbox.Conservation
import RustX.Conversation.SelectionIndexes
import RustX.Context.Selection
import RustX.Context.CheckpointProtocol
import RustX.Context.Allowance
import RustX.Todo.List
import RustX.Tools.SchemaProjection
import RustX.Tools.Read
import RustX.Observation.FieldPreview
import RustX.Tools.Framing
import RustX.Interaction.Routes
import RustX.Auxiliary.Capacity
import RustX.Client.Switch
import RustX.Workflow.Bound
import RustX.Workflow.Sorting
