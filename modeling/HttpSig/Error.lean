import HttpSig.Rust.Outcome
import HttpSig.Rust.Text

/-! The errors of both crates. Texts that the parsers of other crates produce are left out. -/

namespace HttpSig
open Rust

inductive HttpSigError where
  | base64DecodeError
  | parsePrivateKeyError (s : Text)
  | parsePublicKeyError (s : Text)
  | parseSignatureError (s : Text)
  | invalidSignature (s : Text)
  | parseSFVError
  | invalidComponentName (s : Text)
  | invalidComponentParam (s : Text)
  | invalidComponentId (s : Text)
  | invalidComponent (s : Text)
  | invalidSignatureParams (s : Text)
  | buildSignatureHeaderError (s : Text)
  | buildSignatureBaseError (s : Text)
  | expiredSignatureParams (s : Text)
  | invalidAlgorithmName (s : Text)
  | notYetImplemented (s : Text)
  deriving DecidableEq

abbrev HttpSigResult := Outcome HttpSigError

inductive HyperSigError where
  | noSignatureHeaders (s : Text)
  | failedToStrSignatureHeaders
  | invalidHeaderValue
  | invalidComponentName (s : Text)
  | invalidComponentParam (s : Text)
  | invalidSignature (s : Text)
  | httpSigError (e : HttpSigError)
  deriving DecidableEq

abbrev HyperSigResult := Outcome HyperSigError

inductive HyperDigestError where
  | httpBodyError (s : Text)
  | noDigestHeader (s : Text)
  /-- Without a text where it is the parser's own. -/
  | invalidHeaderValue (s : Option Text)
  | failedToStrDigestHeader
  | invalidContentDigest (s : Text)
  | invalidContentDigestType (s : Text)
  deriving DecidableEq

abbrev HyperDigestResult := Outcome HyperDigestError

/-- The conversion that `?` applies to an error of the core crate. -/
def intoHyper {α : Type} (x : HttpSigResult α) : HyperSigResult α := x.mapErr .httpSigError

@[simp] theorem intoHyper_ok {α : Type} (a : α) : intoHyper (.ok a : HttpSigResult α) = .ok a := rfl
@[simp] theorem intoHyper_err {α : Type} (e : HttpSigError) :
    intoHyper (.err e : HttpSigResult α) = .err (.httpSigError e) := rfl
@[simp] theorem intoHyper_panic {α : Type} : intoHyper (.panic : HttpSigResult α) = .panic := rfl

theorem intoHyper_eq_ok {α : Type} {x : HttpSigResult α} {a : α} : intoHyper x = .ok a ↔ x = .ok a :=
  Outcome.mapErr_eq_ok

theorem intoHyper_eq_panic {α : Type} {x : HttpSigResult α} : intoHyper x = .panic ↔ x = .panic :=
  Outcome.mapErr_eq_panic

end HttpSig
