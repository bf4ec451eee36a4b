import HttpSig.SecretSigning
import HttpSig.Systems.Channel
import HttpSig.Systems.Ledger
import HttpSig.Theorems.Acceptance
import HttpSig.Theorems.Atomicity
import HttpSig.Theorems.Authenticity
import HttpSig.Theorems.Batch
import HttpSig.Theorems.Binding
import HttpSig.Theorems.BodyIntegrity
import HttpSig.Theorems.Canonical
import HttpSig.Theorems.Clock
import HttpSig.Theorems.Completeness
import HttpSig.Theorems.Custody
import HttpSig.Theorems.Delivery
import HttpSig.Theorems.DigestLines
import HttpSig.Theorems.EqualIds
import HttpSig.Theorems.Foreign
import HttpSig.Theorems.Hashing
import HttpSig.Theorems.HeaderTexts
import HttpSig.Theorems.IdGrammar
import HttpSig.Theorems.Idempotence
import HttpSig.Theorems.Interleavings
import HttpSig.Theorems.Joining
import HttpSig.Theorems.KeyDiscovery
import HttpSig.Theorems.KeyLoading
import HttpSig.Theorems.KindBinding
import HttpSig.Theorems.Legality
import HttpSig.Theorems.LineRoundTrip
import HttpSig.Theorems.Lines
import HttpSig.Theorems.Padding
import HttpSig.Theorems.Pairing
import HttpSig.Theorems.Panics
import HttpSig.Theorems.QueryParams
import HttpSig.Theorems.Quoteless
import HttpSig.Theorems.ReadBack
import HttpSig.Theorems.Readings
import HttpSig.Theorems.Relay
import HttpSig.Theorems.Reparsing
import HttpSig.Theorems.RequestBinding
import HttpSig.Theorems.RequestComponents
import HttpSig.Theorems.RequestLine
import HttpSig.Theorems.Retention
import HttpSig.Theorems.Settled
import HttpSig.Theorems.Sources
import HttpSig.Theorems.Statement
import HttpSig.Theorems.Transit
import HttpSig.Theorems.Unambiguous
import HttpSig.Theorems.Validity
import HttpSig.Theorems.Verification
