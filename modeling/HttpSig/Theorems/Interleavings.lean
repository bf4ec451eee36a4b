import HttpSig.Systems.Turns
import HttpSig.Theorems.Relay
import HttpSig.Theorems.Verdict

/-! Several signers of one message, whose calls come in any order. Under labels of their own, and over components that no
label moves, none of them is in the way of another, and in the end the message holds the same signatures. -/

namespace HttpSig
open Rust Sfv Http Systems

/-- What a signer hands to `set_message_signatures`. -/
abbrev SigningCall (κ : Type) := List (HttpSignatureParams × κ × Option Text)

namespace Message
variable {β γ κ π : Type} [SigningKey κ] {m s s' : Message β γ} {es made : List HeldSignature} {list done : SigningCall κ}
  {calls : π → List (SigningCall κ)}

/-- A call that succeeds. -/
def Signs (m : Message β γ) (list : SigningCall κ) (m' : Message β γ) : Prop := m.setMessageSignatures list = (m', .ok ())

/-- Calls of which each would succeed alone, beside the labels in use, and no two of which share a label. -/
structure Independent (m : Message β γ) (labels : List Text) (calls : π → List (SigningCall κ)) : Prop where
  alone : ∀ a, ∀ list ∈ calls a, ∃ m', m.Signs list m'
  admits : ∀ a, ∀ list ∈ calls a, Admits labels list
  settled : ∀ a, ∀ list ∈ calls a, ∀ e ∈ list, ∀ id ∈ e.1.coveredComponents, Settled labels id
  nodup : ∀ a, ((calls a).flatten.map labelOf).Nodup
  own : ∀ a b, a ≠ b → ∀ e ∈ (calls a).flatten, ∀ e' ∈ (calls b).flatten, labelOf e ≠ labelOf e'

/-! ### One call -/

/-- A message behind calls: each of them has made what it would have made at first, and what could be signed at first can
be signed still. -/
structure After (m : Message β γ) (es : List HeldSignature) (done : SigningCall κ) (made : List HeldSignature)
    (s : Message β γ) : Prop where
  makes : List.Forall₂ (Makes m) done made
  holds : s.Holds (es ++ made)
  settled : AllSettled (es.map Prod.fst) (es ++ made)
  base : ∀ {p base}, (∀ id ∈ p.coveredComponents, Settled (es.map Prod.fst) id) → m.signatureBase p = .ok base →
    s.signatureBase p = .ok base

theorem labels_of_makes (h : List.Forall₂ (Makes m) list made) : made.map Prod.fst = list.map labelOf := by
  rw [← List.forall₂_eq_eq_eq, List.forall₂_map_left_iff, List.forall₂_map_right_iff]
  refine h.flip.imp ?_
  rintro r e ⟨base, signature, -, -, rfl⟩
  rfl

theorem After.call (h : After m es done made s) (halone : ∃ m', m.Signs list m') (hadm : Admits (es.map Prod.fst) list)
    (hlist : ∀ e ∈ list, ∀ id ∈ e.1.coveredComponents, Settled (es.map Prod.fst) id)
    (hfresh : ∀ e ∈ list, ∀ e' ∈ done, labelOf e' ≠ labelOf e) :
    ∃ s' made', s.Signs list s' ∧ After m es (done ++ list) (made ++ made') s' := by
  obtain ⟨m', hm'⟩ := halone
  obtain ⟨made', hmade⟩ := exists_makes hm'
  obtain ⟨hs, lines, hhs, hlines, -⟩ := setMessageSignatures_eq_ok.mp hm'
  cases (signedHeaders_of_makes hmade).symm.trans hhs
  have hnow : List.Forall₂ (Makes s) list made' := by
    refine List.forall₂_iff_zip.mpr ⟨hmade.length_eq, fun {e r} hmem => ?_⟩
    obtain ⟨base, signature, hbase, hsign, rfl⟩ := (List.forall₂_iff_zip.mp hmade).2 hmem
    exact ⟨base, signature, h.base (hlist e (List.of_mem_zip hmem).1) hbase, hsign, rfl⟩
  have hsub : ∀ k ∈ es.map Prod.fst, k ∈ (es ++ made).map Prod.fst := by
    intro k hk
    rw [List.map_append]
    exact List.mem_append_left _ hk
  have hset : s.Signs list (s.withHeaders (appendPairs s.headers lines)) :=
    setMessageSignatures_eq_ok.mpr ⟨_, lines, signedHeaders_of_makes hnow, hlines, rfl⟩
  have hadm' : Admits ((es ++ made).map Prod.fst) list := by
    refine ⟨hadm.isKey, hadm.readsBack, hadm.nodup, fun e he hmem => ?_⟩
    rw [List.map_append, labels_of_makes h.makes] at hmem
    rcases List.mem_append.mp hmem with hmem | hmem
    · exact hadm.fresh e he hmem
    · obtain ⟨e', he', hlabel⟩ := List.mem_map.mp hmem
      exact hfresh e he e' he' hlabel
  refine ⟨_, made', hset, List.rel_append h.makes hmade, ?_, ?_, fun {p base} hids hp => ?_⟩
  · rw [← List.append_assoc]
    exact h.holds.setMessageSignatures (fun e he id hid => (h.settled e he id hid).mono hsub) hadm'
      (fun e he id hid => (hlist e he id hid).mono hsub) hset hnow
  · intro e he id hid
    rw [← List.append_assoc] at he
    rcases List.mem_append.mp he with he | he
    · exact h.settled e he id hid
    · obtain ⟨x, hx, base, signature, -, -, rfl⟩ := Outcome.exists_of_mem_right hmade he
      exact hlist x hx id hid
  · have hname := made_of_admits hadm hmade
    exact signatureBase_appendPairs hlines (fun x hx => (hname x hx).1) (fun x hx => (hname x hx).2.1)
      (fun x hx => (hname x hx).2.2) hids (h.base hids hp)

/-! ### Runs -/

section
variable [DecidableEq π] {s₁ s₂ : Turns (Message β γ) π (SigningCall κ)} {xs xs₁ xs₂ : List (π × SigningCall κ)}

/-- A message with what its signers have still to do. -/
abbrev signers : System (Turns (Message β γ) π (SigningCall κ)) (π × SigningCall κ) := Turns.system Signs

/-- The labels of a call differ from those of the calls before it. -/
theorem Independent.fresh {t : Turns (Message β γ) π (SigningCall κ)} {labels : List Text} (h : m.Independent labels calls)
    (hrun : signers.Run ⟨m, calls⟩ xs t) {a : π} {rest : List (SigningCall κ)} (hpending : t.pending a = list :: rest) :
    ∀ e ∈ list, ∀ e' ∈ xs.flatMap Prod.snd, labelOf e' ≠ labelOf e := by
  intro e he e' he'
  obtain ⟨⟨b, list'⟩, hx, he'⟩ := List.mem_flatMap.mp he'
  have hall : calls a = Turns.ofParty a xs ++ list :: rest := hpending ▸ Turns.pending_of_run hrun a
  have hown : ∀ b list', (b, list') ∈ xs → ∀ e' ∈ list', e' ∈ (calls b).flatten := fun b list' hx e' he' =>
    List.mem_flatten.mpr ⟨list', Turns.mem_pending_of_run hrun hx, he'⟩
  have hrest : e ∈ (list :: rest).flatten := List.mem_flatten.mpr ⟨list, List.mem_cons_self, he⟩
  by_cases hab : b = a
  · subst hab
    have hnodup := h.nodup b
    rw [hall, List.flatten_append, List.map_append] at hnodup
    have hdone : e' ∈ (Turns.ofParty b xs).flatten := List.mem_flatten.mpr ⟨list', Turns.mem_ofParty.mpr hx, he'⟩
    exact fun hlabel => List.disjoint_of_nodup_append hnodup (List.mem_map.mpr ⟨e', hdone, rfl⟩)
      (List.mem_map.mpr ⟨e, hrest, hlabel.symm⟩)
  · refine h.own b a hab e' (hown b list' hx e' he') e ?_
    rw [hall, List.flatten_append]
    exact List.mem_append_right _ hrest

/-- The next call of a signer succeeds, whatever the others have done. -/
theorem Independent.call {t : Turns (Message β γ) π (SigningCall κ)} (h : m.Independent (es.map Prod.fst) calls)
    (hrun : signers.Run ⟨m, calls⟩ xs t) (hafter : After m es (xs.flatMap Prod.snd) made t.state) {a : π}
    {rest : List (SigningCall κ)} (hpending : t.pending a = list :: rest) :
    ∃ s' made', t.state.Signs list s' ∧ After m es (xs.flatMap Prod.snd ++ list) (made ++ made') s' := by
  have hmem : list ∈ calls a := by
    have hall : calls a = Turns.ofParty a xs ++ t.pending a := Turns.pending_of_run hrun a
    rw [hall, hpending]
    exact List.mem_append_right _ List.mem_cons_self
  exact hafter.call (h.alone a list hmem) (h.admits a list hmem) (h.settled a list hmem) (h.fresh hrun hpending)

theorem Independent.after {t : Turns (Message β γ) π (SigningCall κ)} (h : m.Independent (es.map Prod.fst) calls)
    (hes : m.Holds es) (hsettled : AllSettled (es.map Prod.fst) es) (hrun : signers.Run ⟨m, calls⟩ xs t) :
    ∃ made, After m es (xs.flatMap Prod.snd) made t.state := by
  refine hrun.induction (P := fun xs t => ∃ made, After m es (xs.flatMap Prod.snd) made t.state) ?_ ?_
  · refine ⟨[], .nil, ?_, ?_, fun _ hp => hp⟩
    · rw [List.append_nil]
      exact hes
    · rw [List.append_nil]
      exact hsettled
  · rintro xs t ⟨a, list⟩ u hrun ⟨made, hafter⟩ hstep
    have hstep : Turns.Step Signs t (a, list) u := hstep
    obtain ⟨s', made', hsigns, hafter'⟩ := h.call hrun hafter hstep.first
    have hact : t.state.Signs list u.state := hstep.acts
    cases congrArg Prod.fst (hact.symm.trans hsigns)
    refine ⟨made ++ made', ?_⟩
    rw [List.flatMap_append, List.flatMap_singleton]
    exact hafter'

end

/-- An entry makes one signature only. -/
theorem makes_unique : Relator.RightUnique (@Makes β γ κ _ m) := by
  rintro e r r' ⟨base, signature, hbase, hsign, rfl⟩ ⟨base', signature', hbase', hsign', rfl⟩
  cases hbase.symm.trans hbase'
  cases hsign.symm.trans hsign'
  rfl

/-- Signers with labels of their own are never in each other's way: whoever is next can sign, and each call makes what
it would have made alone. In whatever order they have all signed, the message holds the same signatures, and every key ends
alike on it. -/
theorem signatures_of_interleavings [DecidableEq π] (hes : m.Holds es) (hsettled : AllSettled (es.map Prod.fst) es)
    (hcalls : m.Independent (es.map Prod.fst) calls) :
    (∀ xs t, signers.Run ⟨m, calls⟩ xs t →
      (∃ made, List.Forall₂ (Makes m) (xs.flatMap Prod.snd) made ∧ t.state.Holds (es ++ made)) ∧
      ∀ a list rest, t.pending a = list :: rest → ∃ u, Turns.Step Signs t (a, list) u) ∧
    ∀ xs₁ xs₂ t₁ t₂, signers.Run ⟨m, calls⟩ xs₁ t₁ → signers.Run ⟨m, calls⟩ xs₂ t₂ → t₁.Done → t₂.Done →
      ∃ made₁ made₂, t₁.state.Holds (es ++ made₁) ∧ t₂.state.Holds (es ++ made₂) ∧ made₁.Perm made₂ ∧
        (es ++ made₁ ≠ [] → ∀ {ν : Type} [VerifyingKey ν] (key : ν) (keyId : Option Text) (now : UInt64),
          (fun _ => ()) <$> t₁.state.verifyMessageSignature key keyId now =
            (fun _ => ()) <$> t₂.state.verifyMessageSignature key keyId now) := by
  constructor
  · intro xs t hrun
    obtain ⟨made, hafter⟩ := hcalls.after hes hsettled hrun
    refine ⟨⟨made, hafter.makes, hafter.holds⟩, fun a list rest hpending => ?_⟩
    obtain ⟨s', -, hsigns, -⟩ := hcalls.call hrun hafter hpending
    exact Turns.exists_step hpending hsigns
  · intro xs₁ xs₂ t₁ t₂ hrun₁ hrun₂ hdone₁ hdone₂
    obtain ⟨made₁, hafter₁⟩ := hcalls.after hes hsettled hrun₁
    obtain ⟨made₂, hafter₂⟩ := hcalls.after hes hsettled hrun₂
    have hdone : (xs₁.flatMap Prod.snd).Perm (xs₂.flatMap Prod.snd) :=
      (Turns.perm_of_done hrun₁ hrun₂ hdone₁ hdone₂).flatMap_right Prod.snd
    have hmade : made₁.Perm made₂ := List.rel_perm_imp makes_unique hafter₁.makes hafter₂.makes hdone
    refine ⟨made₁, made₂, hafter₁.holds, hafter₂.holds, hmade, fun hne κ' _ key keyId now => ?_⟩
    have hperm : (es ++ made₁).Perm (es ++ made₂) := hmade.append_left es
    obtain ⟨map₁, hm₁, hentries₁⟩ := hafter₁.holds.extractSignatures hne
    obtain ⟨map₂, hm₂, hentries₂⟩ := hafter₂.holds.extractSignatures fun hnil => hne (hnil ▸ hperm).eq_nil
    exact verifyMessageSignature_perm hm₁ hm₂ (hentries₁ ▸ hentries₂ ▸ hperm)

/-! ### Two signers -/

open scoped ByteKey

def firstSigner : SigningCall ByteKey := [(methodParams, ⟨2⟩, some "first".toList)]

def secondSigner : SigningCall ByteKey := [(methodParams, ⟨3⟩, some "second".toList)]

def twoSigners (second : Bool) : List (SigningCall ByteKey) := [bif second then secondSigner else firstSigner]

/-- The request behind both calls, by whose turn comes first. -/
def bothSigned (second : Bool) : Message Unit Unit :=
  ((unsignedRequest.setMessageSignatures (bif second then secondSigner else firstSigner)).1.setMessageSignatures
    (bif second then firstSigner else secondSigner)).1

theorem signs_of_ok {list : SigningCall κ} (h : (m.setMessageSignatures list).2 = .ok ()) :
    m.Signs list (m.setMessageSignatures list).1 := by
  rw [Signs, ← h]

theorem twoSigners_independent : unsignedRequest.Independent [] twoSigners := by
  have hback : methodParams.ReadsBack := by
    unfold HttpSignatureParams.ReadsBack
    decide
  have hmethod : Settled [] ⟨.derived .method, ∅⟩ := by
    rintro ⟨-, name, hn, -⟩
    cases hn
  have hcall : ∀ a, ∀ list ∈ twoSigners a, list = firstSigner ∨ list = secondSigner := by
    intro a list hlist
    rw [List.mem_singleton.mp hlist]
    cases a
    · exact Or.inl rfl
    · exact Or.inr rfl
  refine ⟨fun a list hlist => ?_, fun a list hlist => ?_, fun a list hlist => ?_, by decide, by decide⟩
  · rcases hcall a list hlist with rfl | rfl
    · exact ⟨_, signs_of_ok (by decide)⟩
    · exact ⟨_, signs_of_ok (by decide)⟩
  · rcases hcall a list hlist with rfl | rfl
    · exact ⟨by decide, List.forall_mem_singleton.mpr hback, by decide, by decide⟩
    · exact ⟨by decide, List.forall_mem_singleton.mpr hback, by decide, by decide⟩
  · rcases hcall a list hlist with rfl | rfl
    · exact List.forall_mem_singleton.mpr (List.forall_mem_singleton.mpr hmethod)
    · exact List.forall_mem_singleton.mpr (List.forall_mem_singleton.mpr hmethod)

theorem twoSigners_run (second : Bool) : signers.Run ⟨unsignedRequest, twoSigners⟩
    [(second, bif second then secondSigner else firstSigner), (!second, bif second then firstSigner else secondSigner)]
    ⟨bothSigned second, fun _ => []⟩ := by
  have hturn : ∀ {b : Bool}, b ≠ second → b = !second := by
    cases second <;> decide
  have hfirst : Turns.Step Signs ⟨unsignedRequest, twoSigners⟩ (second, bif second then secondSigner else firstSigner)
      ⟨(unsignedRequest.setMessageSignatures (bif second then secondSigner else firstSigner)).1,
        fun b => bif b == second then [] else twoSigners b⟩ := by
    refine ⟨?_, fun b hb => ?_, signs_of_ok ?_⟩
    · cases second <;> rfl
    · rw [hturn hb]
      cases second <;> rfl
    · cases second <;> decide
  have hnext : Turns.Step Signs
      ⟨(unsignedRequest.setMessageSignatures (bif second then secondSigner else firstSigner)).1,
        fun b => bif b == second then [] else twoSigners b⟩ (!second, bif second then firstSigner else secondSigner)
      ⟨bothSigned second, fun _ => []⟩ := by
    refine ⟨?_, fun b hb => ?_, signs_of_ok ?_⟩
    · cases second <;> rfl
    · have hb : b = second := by
        by_contra hne
        exact hb (hturn hne)
      rw [hb]
      cases second <;> rfl
    · cases second <;> decide
  exact .cons hfirst (.single hnext)

theorem twoSigners_agree : ∃ made₁ made₂, (bothSigned false).Holds made₁ ∧ (bothSigned true).Holds made₂ ∧ made₁.Perm made₂ := by
  have hsettled : AllSettled [] [] := fun _ h => absurd h List.not_mem_nil
  have hagree := (signatures_of_interleavings (holds_unsigned (by decide) (by decide)) hsettled twoSigners_independent).2
  obtain ⟨made₁, made₂, h₁, h₂, hperm, -⟩ :=
    hagree _ _ _ _ (twoSigners_run false) (twoSigners_run true) (fun _ => rfl) (fun _ => rfl)
  exact ⟨made₁, made₂, h₁, h₂, hperm⟩

end Message
end HttpSig
