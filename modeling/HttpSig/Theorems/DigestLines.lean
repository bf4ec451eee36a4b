import HttpSig.Theorems.ContentDigest
import HttpSig.Theorems.Joining

/-! Content digests over several field lines. The signature covers all lines of the field as one, but a digest is read
from the first line alone: a further line is neither used nor refused. -/

namespace HttpSig
open Rust Sfv Http

/-! ### What the first line gives -/

namespace ContentDigestType

theorem key_injective {t t' : ContentDigestType} (h : t.key = t'.key) : t = t' := by
  cases t <;> cases t'
  · rfl
  · exact absurd h (by decide)
  · exact absurd h (by decide)
  · rfl

theorem fromStr_eq_ok {s : Text} {t : ContentDigestType} : fromStr s = .ok t ↔ s = t.toText := by
  constructor
  · intro h
    unfold fromStr at h
    split at h
    · rename_i hs
      cases h
      exact hs
    · split at h
      · rename_i hs
        cases h
        exact hs
      · cases h
  · rintro rfl
    exact fromStr_toText t

end ContentDigestType

/-- A text that is a dictionary of one member, which is this digest. -/
def IsDigestField (t : ContentDigestType) (digest : Bytes) (s : Text) : Prop :=
  ∃ d ps, parseDictionaryField s = some d ∧ d.entries = [(t.key, .item ⟨.byteSequence digest, ps⟩)]

theorem IsDigestField.keys_eq {t : ContentDigestType} {digest : Bytes} {s : Text} {d : Dictionary}
    (h : IsDigestField t digest s) (hd : parseDictionaryField s = some d) : d.keys = [t.key] := by
  obtain ⟨d', ps, hd', hentries⟩ := h
  obtain rfl : d' = d := Option.some.inj (hd'.symm.trans hd)
  rw [IndexMap.keys, hentries]
  rfl

theorem extractContentDigest_eq_ok {headers : HeaderMap} {t : ContentDigestType} {digest : Bytes} :
    extractContentDigest headers = .ok (t, digest) ↔
      ∃ s ∈ (headers.get contentDigestHeader).bind HeaderValue.toStr, IsDigestField t digest s := by
  constructor
  · intro h
    obtain ⟨v, hv, h⟩ := Outcome.bind_eq_ok.mp h
    obtain ⟨s, hs, h⟩ := Outcome.bind_eq_ok.mp h
    obtain ⟨d, hd, h⟩ := Outcome.bind_eq_ok.mp h
    refine ⟨s, Option.bind_eq_some_iff.mpr ⟨v, Outcome.okOr_eq_ok.mp hv, Outcome.okOr_eq_ok.mp hs⟩, d, ?_⟩
    split at h
    · rename_i k e hentries
      obtain ⟨t', ht', hvalue⟩ := Outcome.bind_eq_ok.mp h
      rw [Outcome.mapErr_eq_ok, ContentDigestType.fromStr_eq_ok] at ht'
      obtain rfl : k = t'.key := Key.ext ht'
      split at hvalue
      · rename_i bytes ps
        cases hvalue
        exact ⟨ps, Outcome.okOr_eq_ok.mp hd, hentries⟩
      · cases hvalue
    · cases h
  · rintro ⟨s, hs, d, ps, hd, hentries⟩
    obtain ⟨v, hv, hs⟩ := Option.bind_eq_some_iff.mp hs
    have hkey : t.key.text = t.toText := rfl
    rw [extractContentDigest, hv, Outcome.okOr_some, Outcome.ok_bind, hs, Outcome.okOr_some, Outcome.ok_bind, hd,
      Outcome.okOr_some, Outcome.ok_bind]
    simp only [hentries, hkey, ContentDigestType.fromStr_toText, Outcome.mapErr_ok, Outcome.ok_bind]

/-- The digest of a body, of either type. -/
def IsDigestOf [Sha2] (bytes : Bytes) (s : Text) : Prop := ∃ t, IsDigestField t (deriveDigest bytes t) s

theorem verifyContentDigestOf_isOk {β : Type} [Sha2] [Body β] {headers : HeaderMap} {body : β} :
    (verifyContentDigestOf headers body).isOk = true ↔ ∃ bytes ∈ Body.intoBytes body,
      ∃ s ∈ (headers.get contentDigestHeader).bind HeaderValue.toStr, IsDigestOf bytes s := by
  constructor
  · intro h
    obtain ⟨_, h⟩ := Outcome.isOk_iff.mp h
    obtain ⟨⟨t, digest⟩, hextract, h⟩ := Outcome.bind_eq_ok.mp h
    obtain ⟨bytes, hbytes, h⟩ := Outcome.bind_eq_ok.mp h
    obtain ⟨s, hs, hfield⟩ := extractContentDigest_eq_ok.mp hextract
    dsimp only at h
    split at h
    · rename_i heq
      rw [isEqualDigest_iff] at heq
      exact ⟨bytes, Outcome.okOr_eq_ok.mp hbytes, s, hs, t, heq ▸ hfield⟩
    · cases h
  · rintro ⟨bytes, hbytes, s, hs, t, hfield⟩
    rw [verifyContentDigestOf_of_extract (extractContentDigest_eq_ok.mpr ⟨s, hs, hfield⟩) hbytes, if_pos rfl]
    rfl

/-! ### What all lines give -/

/-- Lines as one text, when all of them are visible ASCII. -/
def linesText (lines : List HeaderValue) : Option Text := (lines.mapM HeaderValue.toStr).map (join ", ".toList)

theorem linesText_singleton (v : HeaderValue) : linesText [v] = v.toStr := by
  rw [linesText, List.mapM_cons]
  cases v.toStr <;> simp

theorem linesText_of_toStr_none {v : HeaderValue} (hv : v.toStr = none) (rest : List HeaderValue) :
    linesText (v :: rest) = none := by
  rw [linesText, List.mapM_cons, hv]
  rfl

theorem linesText_cons_cons {v : HeaderValue} {s : Text} (hs : v.toStr = some s) (w : HeaderValue) (rest : List HeaderValue) :
    linesText (v :: w :: rest) = (linesText (w :: rest)).map (joinLines s) := by
  rw [linesText, linesText, List.mapM_cons, hs, List.mapM_cons]
  cases w.toStr with
  | none => rfl
  | some r =>
    cases rest.mapM HeaderValue.toStr with
    | none => rfl
    | some rs => simp [joinLines]

/-- A line before which nothing stands does not become a digest by further lines. -/
theorem not_isDigestField_blank {t : ContentDigestType} {digest : Bytes} {s r : Text} (hs : dropSp s = []) :
    ¬IsDigestField t digest (joinLines s r) := by
  rintro ⟨d, ps, hd, -⟩
  rw [joinLines, parseDictionaryField_eq, MemberParser.members_join_blank hs] at hd
  cases hd

/-- A dictionary without members is read from white space alone. -/
theorem parseDictionaryField_entries_ne_nil {s : Text} {d : Dictionary} (hd : parseDictionaryField s = some d)
    (hs : dropSp s ≠ []) : d.entries ≠ [] := by
  rw [parseDictionaryField_eq] at hd
  obtain ⟨l, hl, rfl⟩ := Option.map_eq_some_iff.mp hd
  exact IndexMap.entries_ofList_ne_nil (MemberParser.reads_of_members hs hl).ne_nil

/-- Behind a dictionary line the digest is found when the further lines are it and the first line has only its key. -/
theorem isDigestField_joinLines {t : ContentDigestType} {digest : Bytes} {s r : Text} {d : Dictionary}
    (hd : parseDictionaryField s = some d) :
    IsDigestField t digest (joinLines s r) ↔ d.keys = [t.key] ∧ IsDigestField t digest (dropOws r) := by
  by_cases hs : dropSp s = []
  · refine iff_of_false (not_isDigestField_blank hs) ?_
    rintro ⟨hk, -⟩
    rw [parseDictionaryField_eq, hs] at hd
    cases hd
    cases hk
  · have hne := parseDictionaryField_entries_ne_nil hd hs
    have hjoin := parseDictionaryField_join (y := r) hd hne
    by_cases hr : dropOws r = []
    · rw [if_pos hr] at hjoin
      refine iff_of_false ?_ ?_
      · rintro ⟨_, _, h, -⟩
        rw [joinLines, hjoin] at h
        cases h
      · rintro ⟨-, _, _, h, hentries⟩
        rw [hr] at h
        cases h
        cases hentries
    · rw [if_neg hr] at hjoin
      constructor
      · rintro ⟨d'', ps, h, hentries⟩
        rw [joinLines, hjoin] at h
        obtain ⟨d', hd', rfl⟩ := Option.map_eq_some_iff.mp h
        have hne' := parseDictionaryField_entries_ne_nil hd' (by rwa [dropSp_dropOws])
        obtain ⟨hk, hentries'⟩ := (IndexMap.entries_extend_eq_singleton hne hne').mp hentries
        exact ⟨hk, d', ps, hd', hentries'⟩
      · rintro ⟨hk, d', ps, hd', hentries⟩
        have hne' : d'.entries ≠ [] := by rw [hentries]; exact List.cons_ne_nil _ _
        refine ⟨d.extend d'.entries, ps, ?_, (IndexMap.entries_extend_eq_singleton hne hne').mpr ⟨hk, hentries⟩⟩
        rw [joinLines, hjoin, hd', Option.map_some]

/-- Where at most one choice is open, two existence statements agree when they agree on it. -/
theorem exists_iff_exists_of_unique {α : Type} {k p q : α → Prop} (hk : ∀ {a b}, k a → k b → a = b)
    (hp : ∀ {a}, p a → k a) : ((∃ a, p a) ↔ ∃ a, k a ∧ q a) ↔ ∀ a, k a → (p a ↔ q a) := by
  constructor
  · intro h a ha
    constructor
    · intro hpa
      obtain ⟨b, hb, hqb⟩ := h.mp ⟨a, hpa⟩
      exact hk hb ha ▸ hqb
    · intro hqa
      obtain ⟨b, hpb⟩ := h.mpr ⟨a, ha, hqa⟩
      exact hk (hp hpb) ha ▸ hpb
  · intro h
    constructor
    · rintro ⟨a, hpa⟩
      exact ⟨a, hp hpa, (h a (hp hpa)).mp hpa⟩
    · rintro ⟨a, ha, hqa⟩
      exact ⟨a, (h a ha).mpr hqa⟩

section
variable [Sha2]

/-- A first line says the same as the lines after it. A dictionary with only the key of a digest is the digest of the
body exactly if the further lines are; what is no dictionary by itself does not become the digest by them, as a text
could whose last string goes on behind the comma. -/
def Agrees (bytes : Bytes) (first : Text) (rest : Option Text) : Prop :=
  match parseDictionaryField first with
  | some d => ∀ t : ContentDigestType, d.keys = [t.key] →
    (IsDigestField t (deriveDigest bytes t) first ↔ ∃ r ∈ rest, IsDigestField t (deriveDigest bytes t) (dropOws r))
  | none => ∀ r ∈ rest, ¬IsDigestOf bytes (joinLines first r)

/-- With one line there is nothing to agree with. -/
def LinesAgree (bytes : Bytes) : List HeaderValue → Prop
  | v :: w :: rest => ∀ s ∈ v.toStr, Agrees bytes s (linesText (w :: rest))
  | _ => True

theorem agrees_iff (bytes : Bytes) (first : Text) (rest : Option Text) :
    (IsDigestOf bytes first ↔ ∃ r ∈ rest, IsDigestOf bytes (joinLines first r)) ↔ Agrees bytes first rest := by
  unfold Agrees
  cases hd : parseDictionaryField first with
  | none =>
    have hfirst : ¬IsDigestOf bytes first := by
      rintro ⟨_, _, _, h, -⟩
      rw [hd] at h
      cases h
    rw [iff_false_left hfirst]
    simp only [not_exists, not_and]
  | some d =>
    have hrest : (∃ r ∈ rest, IsDigestOf bytes (joinLines first r)) ↔
        ∃ t, d.keys = [ContentDigestType.key t] ∧ ∃ r ∈ rest, IsDigestField t (deriveDigest bytes t) (dropOws r) := by
      simp only [IsDigestOf, isDigestField_joinLines hd]
      constructor
      · rintro ⟨r, hr, t, ht, hfield⟩
        exact ⟨t, ht, r, hr, hfield⟩
      · rintro ⟨t, ht, r, hr, hfield⟩
        exact ⟨r, hr, t, ht, hfield⟩
    rw [hrest]
    refine exists_iff_exists_of_unique ?_ fun h => h.keys_eq hd
    intro t t' ht ht'
    exact ContentDigestType.key_injective (List.singleton_inj.mp (ht.symm.trans ht'))

/-- The first line gives the same answer as all lines exactly when it agrees with the others. -/
theorem linesAgree_iff (bytes : Bytes) (lines : List HeaderValue) :
    ((∃ s ∈ lines.head?.bind HeaderValue.toStr, IsDigestOf bytes s) ↔ ∃ s ∈ linesText lines, IsDigestOf bytes s) ↔
      LinesAgree bytes lines := by
  match lines with
  | [] =>
    refine iff_of_true (iff_of_false ?_ ?_) trivial
    · rintro ⟨_, h, -⟩
      cases h
    · rintro ⟨_, h, _, _, _, hd, hentries⟩
      cases h
      cases hd
      cases hentries
  | [v] =>
    refine iff_of_true ?_ trivial
    rw [linesText_singleton]
    rfl
  | v :: w :: rest =>
    show ((∃ s ∈ v.toStr, IsDigestOf bytes s) ↔ _) ↔ ∀ s ∈ v.toStr, Agrees bytes s (linesText (w :: rest))
    cases hv : v.toStr with
    | none =>
      rw [linesText_of_toStr_none hv]
      simp
    | some s =>
      rw [linesText_cons_cons hv]
      simpa using agrees_iff bytes s (linesText (w :: rest))

end

/-! ### Messages -/

namespace RequestOrResponse

section
variable {β : Type} [Sha2] [Body β] {msg : RequestOrResponse β}

/-- All lines of the field together are the digest of the body. -/
def HasDigest (msg : RequestOrResponse β) : Prop :=
  ∃ bytes ∈ Body.intoBytes msg.body, ∃ s ∈ fieldText msg.headers contentDigestHeader, IsDigestOf bytes s

theorem verifyContentDigest_isOk : msg.verifyContentDigest.isOk = true ↔ ∃ bytes ∈ Body.intoBytes msg.body,
    ∃ s ∈ (msg.headers.getAll contentDigestHeader).head?.bind HeaderValue.toStr, IsDigestOf bytes s := by
  have hmap : msg.verifyContentDigest.isOk = (verifyContentDigestOf msg.headers msg.body).isOk := by
    rw [verifyContentDigest_eq]
    cases verifyContentDigestOf msg.headers msg.body <;> rfl
  rw [hmap]
  exact verifyContentDigestOf_isOk

/-- The first line agrees with the lines after it, whatever the bytes of the body are. -/
def DigestLinesAgree (msg : RequestOrResponse β) : Prop :=
  ∀ bytes ∈ Body.intoBytes msg.body, LinesAgree bytes (msg.headers.getAll contentDigestHeader)

theorem verifyContentDigest_iff (msg : RequestOrResponse β) :
    (msg.verifyContentDigest.isOk = true ↔ msg.HasDigest) ↔ msg.DigestLinesAgree := by
  have hlines : fieldText msg.headers contentDigestHeader = linesText (msg.headers.getAll contentDigestHeader) := rfl
  rw [verifyContentDigest_isOk, HasDigest, DigestLinesAgree, hlines]
  cases Body.intoBytes msg.body with
  | none => simp
  | some bytes => simpa using linesAgree_iff bytes (msg.headers.getAll contentDigestHeader)

/-- A message with one line for all that another one has. -/
def Merges (msg' msg : RequestOrResponse β) : Prop :=
  ∃ line, msg'.headers.getAll contentDigestHeader = [line] ∧ line.toStr = fieldText msg.headers contentDigestHeader ∧
    msg'.body = msg.body

/-- A message is accepted for what all its lines say, and like the message that has them merged, exactly when its first
line agrees with the others. -/
theorem verifyContentDigest_iff_agree (msg : RequestOrResponse β) :
    ((msg.verifyContentDigest.isOk = true ↔ msg.HasDigest) ↔ msg.DigestLinesAgree) ∧
    ∀ msg' : RequestOrResponse β, msg'.Merges msg →
      (msg.verifyContentDigest.isOk = msg'.verifyContentDigest.isOk ↔ msg.DigestLinesAgree) := by
  refine ⟨verifyContentDigest_iff msg, ?_⟩
  rintro msg' ⟨line, hline, htext, hbody⟩
  have hmerged : msg'.verifyContentDigest.isOk = true ↔ msg.HasDigest := by
    rw [verifyContentDigest_isOk, HasDigest, hline, hbody, ← htext]
    rfl
  rw [Bool.eq_iff_iff, hmerged]
  exact verifyContentDigest_iff msg

end

/-! ### A line behind a valid digest -/

attribute [local instance] helloDigests

def withDigestLines (lines : List Text) : Request Bytes :=
  let req := getRequest (lines.map fun line => (contentDigestHeader, line))
  ⟨req.method, req.uri, req.headers, helloWorld⟩

/-- The digest of the body, and one that is not. -/
def twoDigests : List Text :=
  ["sha-256=:X48E9qOokqqrvdts8nOJRJN3OWDUoyWxBf7kbu9DBPE=:".toList, "sha-512=:AA==:".toList]

theorem twoDigests_accepted : (request (withDigestLines twoDigests)).verifyContentDigest.isOk = true := by decide

theorem twoDigests_not_hasDigest : (request (withDigestLines twoDigests)).verifyContentDigest.isOk = true ∧
    ¬(request (withDigestLines twoDigests)).HasDigest := by
  refine ⟨twoDigests_accepted, ?_⟩
  rintro ⟨_, -, s, hs, t, d, ps, hd, hentries⟩
  have htwo : ((fieldText (withDigestLines twoDigests).headers contentDigestHeader).bind parseDictionaryField).map
      IndexMap.length = some 2 := by decide
  have hs : fieldText (withDigestLines twoDigests).headers contentDigestHeader = some s := hs
  rw [hs, Option.bind_some, hd, Option.map_some, IndexMap.length, hentries] at htwo
  cases htwo

theorem twoDigests_merged : (request (withDigestLines [join ", ".toList twoDigests])).verifyContentDigest.isOk = false ∧
    ¬(request (withDigestLines twoDigests)).DigestLinesAgree := by
  have hrefused : (request (withDigestLines [join ", ".toList twoDigests])).verifyContentDigest.isOk = false := by decide
  refine ⟨hrefused, fun hagree => ?_⟩
  have hsame := ((verifyContentDigest_iff_agree (request (withDigestLines twoDigests))).2
    (request (withDigestLines [join ", ".toList twoDigests]))
    ⟨((HeaderValue.fromStr (join ", ".toList twoDigests)).get (by decide)), by decide, by decide, rfl⟩).mpr hagree
  rw [twoDigests_accepted, hrefused] at hsame
  cases hsame

end RequestOrResponse
end HttpSig
