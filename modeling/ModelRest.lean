import ModelRest.Server
import ModelRest.Proofs.DeclarationOrder
import ModelRest.Proofs.Atomicity
import ModelRest.Proofs.Creation
import ModelRest.Proofs.Protection
import ModelRest.Proofs.Declarations
import ModelRest.Proofs.Consistency
import ModelRest.Proofs.Acceptance
import ModelRest.Proofs.Disclosure
import ModelRest.Proofs.Uniqueness
import ModelRest.Proofs.Resolution
import ModelRest.Proofs.Inheritance
import ModelRest.Proofs.Refinement
import ModelRest.Proofs.Revision
import ModelRest.Proofs.Deletion
import ModelRest.Proofs.ConcurrentChanges
import ModelRest.Proofs.Conformance
import ModelRest.Proofs.ReadBack
import ModelRest.Proofs.QueryIndependence
import ModelRest.Proofs.Actions
import ModelRest.Proofs.Aliases
import ModelRest.Proofs.Population
import ModelRest.Proofs.NormalForm
import ModelRest.Proofs.Readiness
import ModelRest.Proofs.WrittenForm
import ModelRest.Proofs.CustomDecorators
import ModelRest.Proofs.Appending
import ModelRest.Proofs.Updates
import ModelRest.Proofs.Traversal
import ModelRest.Proofs.Turns
import ModelRest.Proofs.Showing
import ModelRest.Proofs.Includes
import ModelRest.Proofs.Merging
import ModelRest.Proofs.Spellings
import ModelRest.Proofs.LifeCycle
