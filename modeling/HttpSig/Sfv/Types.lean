import HttpSig.Rust.IndexMap
import HttpSig.Rust.Text

/-! Structured field values (RFC 9651): the abstract model of items, lists and dictionaries. Every type
carries the constraint its values obey, so that serializing one cannot fail. -/

namespace Sfv
open Rust

/-! ### Character classes -/

/-- VCHAR or SP. -/
def isPrintable (c : Char) : Bool := 0x20 ≤ c.toNat && c.toNat ≤ 0x7e

def isTchar (c : Char) : Bool := c.isAlpha || c.isDigit || "!#$%&'*+-.^_`|~".toList.contains c

def isKeyStart (c : Char) : Bool := c.isLower || c == '*'
def isKeyChar (c : Char) : Bool := c.isLower || c.isDigit || c == '_' || c == '-' || c == '.' || c == '*'

def isTokenStart (c : Char) : Bool := c.isAlpha || c == '*'
def isTokenChar (c : Char) : Bool := isTchar c || c == ':' || c == '/'

def isKey : Text → Bool
  | [] => false
  | c :: cs => isKeyStart c && cs.all isKeyChar

def isToken : Text → Bool
  | [] => false
  | c :: cs => isTokenStart c && cs.all isTokenChar

/-! ### Values -/

structure Key where
  text : Text
  valid : isKey text = true
  deriving DecidableEq

structure Token where
  text : Text
  valid : isToken text = true
  deriving DecidableEq

structure SfString where
  text : Text
  valid : text.all isPrintable = true
  deriving DecidableEq

/-- At most fifteen digits. -/
def maxInteger : Int := 999999999999999

structure Integer where
  val : Int
  bound : -maxInteger ≤ val ∧ val ≤ maxInteger
  deriving DecidableEq

/-- At most twelve digits before the point and three after it, in thousandths. -/
structure Decimal where
  thousandths : Int
  bound : -maxInteger ≤ thousandths ∧ thousandths ≤ maxInteger
  deriving DecidableEq

def Integer.ofInt? (i : Int) : Option Integer :=
  if h : -maxInteger ≤ i ∧ i ≤ maxInteger then some ⟨i, h⟩ else none

def Decimal.ofThousandths? (i : Int) : Option Decimal :=
  if h : -maxInteger ≤ i ∧ i ≤ maxInteger then some ⟨i, h⟩ else none

inductive BareItem where
  | integer (i : Integer)
  | decimal (d : Decimal)
  | string (s : SfString)
  | token (t : Token)
  | byteSequence (bs : List UInt8)
  | boolean (b : Bool)
  | date (i : Integer)
  | displayString (s : Text)
  deriving DecidableEq

namespace BareItem

def asInteger : BareItem → Option Integer
  | integer i => some i
  | _ => none

def asString : BareItem → Option SfString
  | string s => some s
  | _ => none

end BareItem

abbrev Parameters := IndexMap Key BareItem

structure Item where
  bareItem : BareItem
  params : Parameters
  deriving DecidableEq

structure InnerList where
  items : List Item
  params : Parameters
  deriving DecidableEq

inductive ListEntry where
  | item (i : Item)
  | innerList (l : InnerList)
  deriving DecidableEq

abbrev SfList := List ListEntry

abbrev Dictionary := IndexMap Key ListEntry

@[ext] theorem Key.ext {a b : Key} (h : a.text = b.text) : a = b := by
  cases a
  cases b
  cases h
  rfl

theorem Key.ne_nil (k : Key) : k.text ≠ [] := by
  intro h
  have := k.valid
  simp [h, isKey] at this

theorem isKeyChar_of_isKeyStart {c : Char} (h : isKeyStart c = true) : isKeyChar c = true := by
  simp only [isKeyStart, isKeyChar, Bool.or_eq_true] at h ⊢
  tauto

theorem isTokenChar_of_isTokenStart {c : Char} (h : isTokenStart c = true) : isTokenChar c = true := by
  simp only [isTokenStart, isTokenChar, isTchar, Bool.or_eq_true, beq_iff_eq] at h ⊢
  rcases h with h | rfl
  · tauto
  · decide

theorem Key.isKeyChar_of_mem (k : Key) : ∀ c ∈ k.text, isKeyChar c = true := by
  obtain ⟨t, h⟩ := k
  intro c hc
  cases t with
  | nil => cases hc
  | cons a t =>
    simp only [isKey, Bool.and_eq_true, List.all_eq_true] at h
    rcases List.mem_cons.mp hc with rfl | hc
    · exact isKeyChar_of_isKeyStart h.1
    · exact h.2 c hc

theorem Token.isTokenChar_of_mem (k : Token) : ∀ c ∈ k.text, isTokenChar c = true := by
  obtain ⟨t, h⟩ := k
  intro c hc
  cases t with
  | nil => cases hc
  | cons a t =>
    simp only [isToken, Bool.and_eq_true, List.all_eq_true] at h
    rcases List.mem_cons.mp hc with rfl | hc
    · exact isTokenChar_of_isTokenStart h.1
    · exact h.2 c hc

/-- Key characters are token characters, so what ends a token ends a key. -/
theorem isTokenChar_of_isKeyChar {c : Char} (h : isKeyChar c = true) : isTokenChar c = true := by
  have halpha : c.isLower = true → c.isAlpha = true := fun h => isAlpha_iff.mpr (Or.inr (isLower_iff.mp h))
  simp only [isKeyChar, isTokenChar, isTchar, Bool.or_eq_true, beq_iff_eq] at h ⊢
  rcases h with ((((h | h) | rfl) | rfl) | rfl) | rfl
  · tauto
  · tauto
  all_goals decide

theorem isTokenChar_of_isDigit {c : Char} (h : c.isDigit = true) : isTokenChar c = true := by
  simp [isTokenChar, isTchar, h]

end Sfv
