import HttpSig.Theorems.Readings
import HttpSig.Theorems.Verdict

/-! What a key makes of one message while the clock moves on. Signatures only run out: a label that is accepted stays
accepted until its own time is over, and what is refused stays refused. -/

namespace HttpSig
open Rust Sfv Http

/-! ### Results in time -/

/-- What may come after a result: a panic may end, a label may give way to a later one, and a refusal stays. -/
def Precedes (labels : List SignatureName) : HyperSigResult SignatureName → HyperSigResult SignatureName → Prop
  | .panic, _ => True
  | .ok name, .ok name' => labels.idxOf name ≤ labels.idxOf name'
  | .ok _, .err _ => True
  | .err e, .err e' => e = e'
  | _, _ => False

theorem Precedes.phases {labels : List SignatureName} {results : List (HyperSigResult SignatureName)}
    (h : results.Pairwise (Precedes labels)) : ∃ (panics : ℕ) (names : List SignatureName) (refusals : ℕ) (e : HyperSigError),
      results = List.replicate panics .panic ++ names.map .ok ++ List.replicate refusals (.err e) ∧
      names.Pairwise fun name name' => labels.idxOf name ≤ labels.idxOf name' := by
  induction results with
  | nil => exact ⟨0, [], 0, .invalidSignature [], rfl, .nil⟩
  | cons r results ih =>
    obtain ⟨hhead, htail⟩ := List.pairwise_cons.mp h
    cases r with
    | panic =>
      obtain ⟨panics, names, refusals, e, rfl, hnames⟩ := ih htail
      exact ⟨panics + 1, names, refusals, e, rfl, hnames⟩
    | ok name =>
      obtain ⟨panics, names, refusals, e, rfl, hnames⟩ := ih htail
      cases panics with
      | zero =>
        refine ⟨0, name :: names, refusals, e, rfl, List.pairwise_cons.mpr ⟨fun name' hname' => ?_, hnames⟩⟩
        exact hhead (.ok name') (List.mem_append_left _ (List.mem_map.mpr ⟨name', hname', rfl⟩))
      | succ panics => exact (hhead .panic List.mem_cons_self).elim
    | err e =>
      refine ⟨0, [], results.length + 1, e, ?_, .nil⟩
      have hall : ∀ r ∈ results, r = .err e := by
        intro r hr
        have hafter := hhead r hr
        cases r with
        | err e' => exact congrArg _ (Eq.symm hafter)
        | _ => exact hafter.elim
      rw [List.replicate_succ, ← List.eq_replicate_of_mem hall]
      rfl

/-! ### Labels in time -/

theorem HttpSignatureParams.isExpired_mono {p : HttpSignatureParams} {now now' : UInt64} (hle : now ≤ now')
    (h : p.isExpired now' = false) : p.isExpired now = false :=
  isExpired_eq_false.mpr fun t ht => UInt64.le_trans hle (isExpired_eq_false.mp h t ht)

section
variable {κ : Type} [VerifyingKey κ] {key : κ} {keyId : Option Text} {now now' : UInt64}
  {e : SignatureName × (HttpSignatureBase × HttpSignatureHeaders)}

/-- A signature that is in time at both times verifies alike at both. -/
theorem HttpSignatureBase.verifySignatureHeaders_of_inTime {base : HttpSignatureBase} {headers : HttpSignatureHeaders}
    (h : headers.signatureParams.isExpired now = false) (h' : headers.signatureParams.isExpired now' = false) :
    base.verifySignatureHeaders key headers now' = base.verifySignatureHeaders key headers now := by
  rw [verifySignatureHeaders, verifySignatureHeaders, h, h']

theorem HttpSignatureBase.isExpired_of_verifySignatureHeaders {base : HttpSignatureBase} {headers : HttpSignatureHeaders}
    (h : ∀ e, base.verifySignatureHeaders key headers now ≠ .err e) : headers.signatureParams.isExpired now = false := by
  rw [verifySignatureHeaders] at h
  split at h
  · exact absurd rfl (h _)
  · rename_i hexp
    exact (Bool.not_eq_true _).mp hexp

theorem PanicsOn.earlier (hle : now ≤ now') (h : PanicsOn key keyId now' e) : PanicsOn key keyId now e := by
  obtain ⟨hid, hpanic⟩ := h
  have hexp := HttpSignatureBase.isExpired_of_verifySignatureHeaders (fun x hx => by rw [hx] at hpanic; cases hpanic)
  refine ⟨hid, ?_⟩
  rw [← hpanic, HttpSignatureBase.verifySignatureHeaders_of_inTime (HttpSignatureParams.isExpired_mono hle hexp) hexp]

theorem selects_earlier (hle : now ≤ now') (h : selects key keyId now' e = true) : selects key keyId now e = true := by
  rw [selects, Bool.and_eq_true, verifySignatureHeaders_isOk] at h ⊢
  obtain ⟨hid, htime, hverify⟩ := h
  exact ⟨hid, fun t ht => UInt64.le_trans hle (htime t ht), hverify⟩

/-- A label that is selected stays so until its time is over. -/
theorem selects_later (h : selects key keyId now e = true) (hexp : e.2.2.signatureParams.isExpired now' = false) :
    selects key keyId now' e = true := by
  rw [selects, Bool.and_eq_true, verifySignatureHeaders_isOk] at h ⊢
  obtain ⟨hid, -, hverify⟩ := h
  exact ⟨hid, HttpSignatureParams.isExpired_eq_false.mp hexp, hverify⟩

end

/-- The first of fewer comes no sooner. -/
theorem idxOf_find?_le {ν : Type} {l : List (SignatureName × ν)} {p q : SignatureName × ν → Bool} {name name' : SignatureName}
    (hnodup : (l.map Prod.fst).Nodup) (hsub : ∀ x ∈ l, q x = true → p x = true) (h : (l.find? p).map Prod.fst = some name)
    (h' : (l.find? q).map Prod.fst = some name') : (l.map Prod.fst).idxOf name ≤ (l.map Prod.fst).idxOf name' := by
  obtain ⟨x, hx, rfl⟩ := Option.map_eq_some_iff.mp h
  obtain ⟨y, hy, rfl⟩ := Option.map_eq_some_iff.mp h'
  obtain ⟨-, l₁, l₂, rfl, hl₁⟩ := List.find?_eq_some_iff_append.mp hx
  have hmem := List.mem_of_find?_eq_some hy
  have hpy := hsub y hmem (List.find?_some hy)
  have hrest : y ∈ x :: l₂ := by
    refine (List.mem_append.mp hmem).resolve_left fun hy₁ => ?_
    have hno := hl₁ y hy₁
    rw [hpy] at hno
    cases hno
  rw [List.map_append] at hnodup ⊢
  have hnot : ∀ z ∈ x :: l₂, z.1 ∉ l₁.map Prod.fst := fun z hz hz₁ =>
    List.disjoint_of_nodup_append hnodup hz₁ (List.mem_map.mpr ⟨z, hz, rfl⟩)
  rw [List.idxOf_append_of_notMem (hnot x List.mem_cons_self), List.idxOf_append_of_notMem (hnot y hrest), List.map_cons,
    List.idxOf_cons_self]
  exact Nat.add_le_add_left (Nat.zero_le _) _

/-! ### Messages in time -/

namespace Message
variable {β γ κ : Type} [VerifyingKey κ] {m : Message β γ} {key : κ} {keyId : Option Text} {now now' : UInt64}

theorem precedes_of_le {map : SignatureMap} (hm : m.extractSignatures = .ok map) (hle : now ≤ now') :
    Precedes map.keys (m.verifyMessageSignature key keyId now) (m.verifyMessageSignature key keyId now') := by
  by_cases hpanic : ∃ e ∈ map.entries, PanicsOn key keyId now e
  · rw [(verifyMessageSignature_panic_iff hm).mpr hpanic]
    trivial
  · have hno : ∀ e ∈ map.entries, ¬ PanicsOn key keyId now e := fun e he hp => hpanic ⟨e, he, hp⟩
    have hno' : ∀ e ∈ map.entries, ¬ PanicsOn key keyId now' e := fun e he hp => hno e he (hp.earlier hle)
    rw [verifyMessageSignature_of_forall hm hno, verifyMessageSignature_of_forall hm hno']
    cases hname : (map.entries.find? (selects key keyId now)).map Prod.fst with
    | some name =>
      cases hname' : (map.entries.find? (selects key keyId now')).map Prod.fst with
      | some name' => exact idxOf_find?_le map.nodup (fun x _ => selects_earlier hle) hname hname'
      | none => trivial
    | none =>
      -- nothing is selected later either
      have hnone : map.entries.find? (selects key keyId now') = none := by
        rw [Option.map_eq_none_iff, List.find?_eq_none] at hname
        exact List.find?_eq_none.mpr fun x hx hsel => hname x hx (selects_earlier hle hsel)
      rw [hnone]
      rfl

/-- A label is given up only when its time is over. -/
theorem verifyMessageSignature_later {map : SignatureMap} {name : SignatureName} (hm : m.extractSignatures = .ok map)
    (hle : now ≤ now') (h : m.verifyMessageSignature key keyId now = .ok name)
    (hexp : ∀ e ∈ map.entries, e.1 = name → e.2.2.signatureParams.isExpired now' = false) :
    m.verifyMessageSignature key keyId now' = .ok name := by
  have hno : ∀ e ∈ map.entries, ¬ PanicsOn key keyId now e := by
    intro e he hp
    rw [(verifyMessageSignature_panic_iff hm).mpr ⟨e, he, hp⟩] at h
    cases h
  rw [verifyMessageSignature_of_forall hm hno] at h
  rw [verifyMessageSignature_of_forall hm fun e he hp => hno e he (hp.earlier hle)]
  cases hfind : map.entries.find? (selects key keyId now) with
  | none =>
    rw [hfind] at h
    cases h
  | some e =>
    rw [hfind] at h
    cases h
    obtain ⟨hsel, l₁, l₂, hentries, hl₁⟩ := List.find?_eq_some_iff_append.mp hfind
    have hsel' := selects_later hsel (hexp e (List.mem_of_find?_eq_some hfind) rfl)
    have hfind' : map.entries.find? (selects key keyId now') = some e := by
      refine List.find?_eq_some_iff_append.mpr ⟨hsel', l₁, l₂, hentries, fun x hx => ?_⟩
      rw [Bool.not_eq_true', ← Bool.not_eq_true]
      intro hx'
      have hno := hl₁ x hx
      rw [selects_earlier hle hx'] at hno
      cases hno
    rw [hfind']
    rfl

/-- The parameters of what is extracted are reported under their label. -/
theorem getSignatureParams_of_extracted {map : SignatureMap} {e : SignatureName × (HttpSignatureBase × HttpSignatureHeaders)}
    (hm : m.extractSignatures = .ok map) (he : e ∈ map.entries) :
    ∃ params, m.getSignatureParams = .ok params ∧ (e.1, e.2.2.signatureParams) ∈ params.entries := by
  have hread := m.entries_extractSignatures
  rw [hm, Outcome.map_ok] at hread
  obtain ⟨l, hl, hentries⟩ := Outcome.map_eq_ok.mp hread.symm
  have hparams := m.entries_getSignatureParams
  rw [hl, Outcome.map_ok] at hparams
  obtain ⟨params, hparams, hall⟩ := Outcome.map_eq_ok.mp hparams
  refine ⟨params, hparams, ?_⟩
  rw [← hentries] at he
  obtain ⟨x, hx, hbuilt⟩ := List.mem_filterMap.mp he
  obtain ⟨base, -, rfl⟩ := Option.map_eq_some_iff.mp hbuilt
  rw [hall]
  exact List.mem_map.mpr ⟨x, hx, rfl⟩

/-- While the clock moves on a key panics, then accepts labels in the order of `signature-input`, then refuses the message
for one and the same reason; each label it gives up is over in time. -/
theorem verdicts_over_time {times : List UInt64} (h : times.Pairwise (· ≤ ·)) :
    (∃ (panics : ℕ) (names : List SignatureName) (refusals : ℕ) (e : HyperSigError), times.map (m.verifyMessageSignature key keyId) =
        List.replicate panics .panic ++ names.map .ok ++ List.replicate refusals (.err e) ∧
      ∀ map, m.extractSignatures = .ok map → names.Pairwise fun name name' => map.keys.idxOf name ≤ map.keys.idxOf name') ∧
    times.Pairwise fun now now' => ∀ name, m.verifyMessageSignature key keyId now = .ok name →
      m.verifyMessageSignature key keyId now' = .ok name ∨
        ∃ params p, m.getSignatureParams = .ok params ∧ (name, p) ∈ params.entries ∧ p.isExpired now' = true := by
  constructor
  · by_cases hm : ∃ map, m.extractSignatures = .ok map
    · obtain ⟨map, hm⟩ := hm
      have hsteps : (times.map (m.verifyMessageSignature key keyId)).Pairwise (Precedes map.keys) :=
        List.pairwise_map.mpr (h.imp (precedes_of_le hm))
      obtain ⟨panics, names, refusals, e, hall, hnames⟩ := Precedes.phases hsteps
      refine ⟨panics, names, refusals, e, hall, fun map' hm' => ?_⟩
      rw [← Outcome.ok.inj (hm.symm.trans hm')]
      exact hnames
    · have hunread := verifyMessageSignature_of_unread key keyId fun map hmap => hm ⟨map, hmap⟩
      have hconst : ∀ r, (∀ now, m.verifyMessageSignature key keyId now = r) →
          times.map (m.verifyMessageSignature key keyId) = List.replicate times.length r := by
        intro r hr
        rw [funext hr]
        exact List.map_const' ..
      rcases hunread with hpanic | ⟨e, he⟩
      · refine ⟨times.length, [], 0, .invalidSignature [], ?_, fun _ _ => .nil⟩
        rw [hconst _ hpanic, List.map_nil, List.append_nil]
        exact (List.append_nil _).symm
      · exact ⟨0, [], times.length, e, hconst _ he, fun _ _ => .nil⟩
  · refine h.imp fun {now now'} hle name hname => ?_
    obtain ⟨map, hm, -⟩ := verifyMessageSignature_eq_ok.mp hname
    by_cases hexp : ∀ e ∈ map.entries, e.1 = name → e.2.2.signatureParams.isExpired now' = false
    · exact Or.inl (verifyMessageSignature_later hm hle hname hexp)
    · push Not at hexp
      obtain ⟨e, he, rfl, hexp⟩ := hexp
      obtain ⟨params, hparams, hmem⟩ := getSignatureParams_of_extracted hm he
      exact Or.inr ⟨params, e.2.2.signatureParams, hparams, hmem, (Bool.not_eq_false _).mp hexp⟩

/-- Both labels are made by one key, and `a` is over first. -/
def runningOut : Message Unit Unit := .request (getRequest [
  (signatureInputHeader, "a=(\"@method\");expires=1, b=();expires=3".toList),
  (signatureHeader, "a=:AQ==:, b=:AQ==:".toList)])

open scoped ByteKey

theorem runningOut_verdicts : runningOut.verifyMessageSignature (ByteKey.mk 1) none 0 = .ok "a".toList ∧
    runningOut.verifyMessageSignature (ByteKey.mk 1) none 2 = .ok "b".toList ∧
    ∃ params p, runningOut.getSignatureParams = .ok params ∧ ("a".toList, p) ∈ params.entries ∧ p.isExpired 2 = true := by
  have hfirst : runningOut.verifyMessageSignature (ByteKey.mk 1) none 0 = .ok "a".toList := by decide +kernel
  have hthen : runningOut.verifyMessageSignature (ByteKey.mk 1) none 2 = .ok "b".toList := by decide +kernel
  have htimes : [0, 2].Pairwise fun now now' : UInt64 => now ≤ now' := List.pairwise_pair.mpr (by decide)
  have hlater := List.pairwise_pair.mp (verdicts_over_time htimes).2 _ hfirst
  rw [hthen] at hlater
  exact ⟨hfirst, hthen, hlater.resolve_left (by decide)⟩

end Message
end HttpSig
