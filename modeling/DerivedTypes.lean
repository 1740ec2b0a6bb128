import DerivedTypes.Memory.Listing
import DerivedTypes.Proofs.Allocation.DefaultElements
import DerivedTypes.Proofs.Allocation.ErrorMessage
import DerivedTypes.Proofs.Allocation.LenValues
import DerivedTypes.Proofs.Allocation.Refusal
import DerivedTypes.Proofs.Buffer.ByteStore
import DerivedTypes.Proofs.DefaultValue.FlagMeaning
import DerivedTypes.Proofs.DefaultValue.MissingEntry
import DerivedTypes.Proofs.DefaultValue.Overlay
import DerivedTypes.Proofs.DerivedType.FirstElements
import DerivedTypes.Proofs.DerivedType.LayoutBounds
import DerivedTypes.Proofs.Descriptor.StaticShape
import DerivedTypes.Proofs.Finalization.Independence
import DerivedTypes.Proofs.Finalization.Shortcut
import DerivedTypes.Proofs.Finalization.Subobjects
import DerivedTypes.Proofs.Session.HeapSafety
import DerivedTypes.Proofs.Teardown.Footprint
import DerivedTypes.Proofs.Text.Colors
import DerivedTypes.Proofs.Trace.Trees
