import StarkSigning.Signing.Verification
import StarkSigning.TypedData.Document
import StarkSigning.Proofs.Signing.Agreement
import StarkSigning.Proofs.Signing.Negation
import StarkSigning.Proofs.Curve.Circuit
import StarkSigning.Proofs.Curve.Repeated
import StarkSigning.Proofs.Signing.Refusal
import StarkSigning.Proofs.Hash.Formula
import StarkSigning.Proofs.TypedData.Binding
import StarkSigning.Proofs.TypedData.Acceptance
import StarkSigning.Proofs.TypedData.Unfolding
import StarkSigning.Proofs.TypedData.Decoding
import StarkSigning.Proofs.Hash.Failure
import StarkSigning.Proofs.Hash.RunningSum
import StarkSigning.Proofs.TypedData.Conformance
import StarkSigning.Proofs.Erasure
import StarkSigning.Proofs.TypedData.Presentation
import StarkSigning.Proofs.TypedData.Locality
import StarkSigning.Proofs.TypedData.Noninterference
import StarkSigning.Proofs.TypedData.Separation
import StarkSigning.Proofs.Felt.Canonical
import StarkSigning.Proofs.Modular.Rounds
import StarkSigning.Proofs.Curve.Unchecked
import StarkSigning.Proofs.Signing.Attempts
import StarkSigning.Proofs.Signing.Equation
import StarkSigning.Proofs.Signing.NonceSearch
import StarkSigning.Proofs.Signing.Rfc6979
import StarkSigning.Proofs.Signing.SeedMaterial
import StarkSigning.Proofs.Text.Positional
import StarkSigning.Proofs.Felt.Grammar
import StarkSigning.Proofs.TypedData.Inference
import StarkSigning.Proofs.TypedData.Interchange
import StarkSigning.Proofs.Json.Integers
import StarkSigning.Proofs.TypedData.Conversion
import StarkSigning.Proofs.TypedData.Loading
import StarkSigning.Proofs.Field.Arithmetic
