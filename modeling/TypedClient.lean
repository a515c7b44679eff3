import TypedClient.Main
import TypedClient.Proofs.Api.Codec
import TypedClient.Proofs.Client.DeclaredResponses
import TypedClient.Proofs.Client.InPlace
import TypedClient.Proofs.Client.MissingArguments
import TypedClient.Proofs.Client.MultipartForms
import TypedClient.Proofs.Client.Overlapping
import TypedClient.Proofs.Client.Queries
import TypedClient.Proofs.Client.Reconfiguring
import TypedClient.Proofs.Client.Requirements
import TypedClient.Proofs.Client.Retrying
import TypedClient.Proofs.Client.SortedArguments
import TypedClient.Proofs.Declaration.Widening
import TypedClient.Proofs.Emit.Components
import TypedClient.Proofs.Emit.DeclaredTypes
import TypedClient.Proofs.Emit.Globals
import TypedClient.Proofs.Emit.Requests
import TypedClient.Proofs.OpenApi.Parameters
import TypedClient.Proofs.OpenApi.Pointers
import TypedClient.Proofs.OpenApi.RequiredFields
import TypedClient.Proofs.OpenApi.Routes
import TypedClient.Proofs.OpenApi.Satisfaction
import TypedClient.Proofs.Script.Comments
import TypedClient.Proofs.Script.Templates
import TypedClient.Proofs.Types.Bisimilarity
import TypedClient.Proofs.Types.Mismatches
