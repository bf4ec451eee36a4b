import HttpSig.Theorems.Lines

/-! What a signature base says: the text and the value of each covered id, the two times, and what is printed of
the other parameters. The bytes of a base tell all of it, whatever the messages behind two bases are. -/

namespace HttpSig
open Rust Sfv Http

/-! ### Parameters after the ids -/

namespace HttpSignatureParams

/-- What may follow a parameter: nothing, or another one under a later key. -/
def Follows (ks : List Text) (t : Text) : Prop := t = [] ∨ ∃ k ∈ ks, ∃ s, t = ';' :: (k ++ '=' :: s)

theorem Follows.paramText {ks : List Text} {t : Text} (h : Follows ks t) (k : Text) (o : Option Text) :
    Follows (k :: ks) (paramText k o ++ t) := by
  cases o with
  | none =>
    rcases h with h | ⟨k', hk', s, h⟩
    · exact Or.inl h
    · exact Or.inr ⟨k', List.mem_cons_of_mem _ hk', s, h⟩
  | some v => exact Or.inr ⟨k, List.mem_cons_self .., v ++ t, by simp [HttpSignatureParams.paramText]⟩

theorem Follows.head {ks : List Text} {t : Text} (h : Follows ks t) : ∀ c ∈ t.head?, c = ';' := by
  intro c hc
  rcases h with rfl | ⟨k, -, s, rfl⟩
  · cases hc
  · simpa [eq_comm] using hc

theorem Follows.ne {ks : List Text} {t : Text} (h : Follows ks t) {k : Text} (hk : k ∉ ks)
    (hkc : ∀ c ∈ k, isKeyChar c = true) (hkcs : ∀ k ∈ ks, ∀ c ∈ k, isKeyChar c = true) (s : Text) :
    t ≠ ';' :: (k ++ '=' :: s) := by
  rintro rfl
  rcases h with h | ⟨k', hk', s', h⟩
  · cases h
  · obtain ⟨rfl, -⟩ := key_align hkc (hkcs k' hk') (head_equals _) (head_equals _) (List.cons.inj h).2
    exact hk hk'

/-- A time as it is printed under its key. -/
def timeText (k : Text) (o : Option UInt64) : Text := paramText k (o.map fun n => natText n.toNat)

/-- A time ends before what is no digit, so it is told from what follows. -/
theorem timeText_unique {k : Text} {ks : List Text} (hk : k ∉ ks) (hkc : ∀ c ∈ k, isKeyChar c = true)
    (hkcs : ∀ k ∈ ks, ∀ c ∈ k, isKeyChar c = true) {o o' : Option UInt64} {t t' : Text} (ht : Follows ks t)
    (ht' : Follows ks t') (h : timeText k o ++ t = timeText k o' ++ t') : o = o' ∧ t = t' := by
  have digit : ∀ {t : Text}, Follows ks t → ∀ c ∈ t.head?, c.isDigit = false :=
    fun ht c hc => by rw [ht.head c hc]; decide
  cases o with
  | none =>
    cases o' with
    | none => exact ⟨rfl, h⟩
    | some n =>
      refine absurd ?_ (ht.ne hk hkc hkcs (natText n.toNat ++ t'))
      simpa [timeText, paramText] using h
  | some m =>
    cases o' with
    | none =>
      refine absurd ?_ (ht'.ne hk hkc hkcs (natText m.toNat ++ t))
      simpa [timeText, paramText] using h.symm
    | some n =>
      have h : natText m.toNat ++ t = natText n.toNat ++ t' := by simpa [timeText, paramText] using h
      have hn := congrArg (List.takeWhile Char.isDigit) h
      rw [natText_takeWhile (digit ht), natText_takeWhile (digit ht')] at hn
      rw [hn, List.append_cancel_left_eq] at h
      exact ⟨congrArg some (natText_toNat_injective hn), h⟩

/-- The keys of the parameters that are strings, in the order they are printed in. -/
def describingKeys : List Text := ["nonce".toList, "alg".toList, "keyid".toList, "tag".toList]

/-- What is printed of the strings among the parameters. -/
def descriptionText (p : HttpSignatureParams) : Text :=
  paramText "nonce".toList (p.nonce.map quoted) ++ (paramText "alg".toList (p.alg.map quoted) ++
    (paramText "keyid".toList (p.keyid.map quoted) ++ (paramText "tag".toList (p.tag.map quoted) ++ [])))

theorem follows_descriptionText (p : HttpSignatureParams) : Follows describingKeys p.descriptionText :=
  have hnil : Follows [] [] := Or.inl rfl
  (((hnil.paramText _ _).paramText _ _).paramText _ _).paramText _ _

theorem toText_eq_description (p : HttpSignatureParams) : p.toText =
    '(' :: join [' '] (p.coveredComponents.map HttpMessageComponentId.toText) ++ ')' ::
      (timeText "created".toList p.created ++ (timeText "expires".toList p.expires ++ p.descriptionText)) := by
  rw [toText_eq, descriptionText, timeText, timeText, List.append_nil]

end HttpSignatureParams

/-! ### Statements -/

/-- What a base says. -/
structure Statement where
  /-- Each covered id as it is printed, with its value. -/
  components : List (Text × Text)
  created : Option UInt64
  expires : Option UInt64
  /-- The other parameters as they are printed. -/
  description : Text
  follows : HttpSignatureParams.Follows HttpSignatureParams.describingKeys description

namespace Statement
open HttpSignatureParams

def lineText (c : Text × Text) : Text := c.1 ++ ':' :: ' ' :: c.2

/-- What comes after the ids of a statement. -/
def tailText (s : Statement) : Text :=
  timeText "created".toList s.created ++ (timeText "expires".toList s.expires ++ s.description)

def paramsText (s : Statement) : Text := '(' :: join [' '] (s.components.map Prod.fst) ++ ')' :: s.tailText

def toText (s : Statement) : Text :=
  (s.components.map lineText).flatMap (fun l => l ++ ['\n']) ++ ("\"@signature-params\": ".toList ++ s.paramsText)

/-- Every part of the statement stays on its own line. -/
structure OneLine (s : Statement) : Prop where
  components : ∀ c ∈ s.components, '\n' ∉ c.1 ∧ '\n' ∉ c.2
  params : '\n' ∉ s.paramsText

theorem tailText_unique {s s' : Statement} (h : s.tailText = s'.tailText) :
    s.created = s'.created ∧ s.expires = s'.expires ∧ s.description = s'.description := by
  have chars : ∀ k ∈ paramKeys, ∀ c ∈ k, isKeyChar c = true := isKeyChar_of_mem_paramKeys
  have hrest : ∀ s : Statement, Follows ("expires".toList :: describingKeys)
      (timeText "expires".toList s.expires ++ s.description) := fun s => s.follows.paramText _ _
  have hks : ∀ k ∈ "expires".toList :: describingKeys, k ∈ paramKeys := by decide
  obtain ⟨hc, h⟩ := timeText_unique (by decide) (chars _ (by decide)) (fun k hk => chars k (hks k hk)) (hrest s) (hrest s') h
  obtain ⟨he, hd⟩ := timeText_unique (by decide) (chars _ (by decide))
    (fun k hk => chars k (hks k (List.mem_cons_of_mem _ hk))) s.follows s'.follows h
  exact ⟨hc, he, hd⟩

/-- An id ends at the colon of its line, and at a blank or a parenthesis in the list of ids. -/
theorem id_unique {a b u v s t : Text} (hu : ∀ c ∈ u.head?, c ≠ ':') (hv : ∀ c ∈ v.head?, c ≠ ':')
    (hline : a ++ ':' :: s = b ++ ':' :: t) (hlist : a ++ u = b ++ v) : a = b := by
  have longer : ∀ {a u v s t z : Text}, (∀ c ∈ v.head?, c ≠ ':') → ':' :: s = z ++ ':' :: t → v = z ++ u → z = [] := by
    intro a u v s t z hv hline hlist
    cases z with
    | nil => rfl
    | cons d z => exact absurd (List.cons.inj hline).1.symm (hv d (by rw [hlist]; rfl))
  rcases List.append_eq_append_iff.mp hlist with ⟨z, rfl, hz⟩ | ⟨z, rfl, hz⟩
  · rw [List.append_assoc, List.append_cancel_left_eq] at hline
    rw [longer (a := a) hu hline hz, List.append_nil]
  · rw [List.append_assoc, List.append_cancel_left_eq] at hline
    rw [longer (a := b) hv hline.symm hz, List.append_nil]

theorem lineText_unique {c c' : Text × Text} (hid : c.1 = c'.1) (h : lineText c = lineText c') : c = c' := by
  rw [lineText, lineText, hid, List.append_cancel_left_eq] at h
  exact Prod.ext hid (List.cons.inj (List.cons.inj h).2).2

/-- Equal lines and equal lists of ids come from the same components. -/
theorem components_unique {r r' : Text} : ∀ {cs cs' : List (Text × Text)}, cs.map lineText = cs'.map lineText →
    join [' '] (cs.map Prod.fst) ++ ')' :: r = join [' '] (cs'.map Prod.fst) ++ ')' :: r' → cs = cs' ∧ r = r'
  | [], [], _, h => ⟨rfl, (List.cons.inj h).2⟩
  | [], _ :: _, hl, _ => by cases hl
  | _ :: _, [], hl, _ => by cases hl
  | c :: cs, c' :: cs', hl, h => by
    obtain ⟨hline, hlines⟩ := List.cons.inj hl
    have head : ∀ (cs : List (Text × Text)) (r : Text),
        ∀ d ∈ ((cs.map Prod.fst).flatMap ([' '] ++ ·) ++ ')' :: r).head?, d ≠ ':' := by
      intro cs r d hd
      cases cs with
      | nil =>
        obtain rfl : ')' = d := Option.some.inj hd
        decide
      | cons c cs =>
        obtain rfl : ' ' = d := Option.some.inj hd
        decide
    rw [List.map_cons, List.map_cons, join_cons, join_cons, List.append_assoc, List.append_assoc] at h
    have hid : c.1 = c'.1 := id_unique (head cs r) (head cs' r') hline h
    rw [hid, List.append_cancel_left_eq] at h
    have hjoin : join [' '] (cs.map Prod.fst) ++ ')' :: r = join [' '] (cs'.map Prod.fst) ++ ')' :: r' := by
      cases cs with
      | nil =>
        cases cs' with
        | nil => exact h
        | cons d cs' => cases hlines
      | cons d cs =>
        cases cs' with
        | nil => cases hlines
        | cons d' cs' =>
          rw [List.map_cons, List.map_cons, join_cons, join_cons]
          simpa using h
    obtain ⟨rfl, hr⟩ := components_unique hlines hjoin
    exact ⟨congrArg (· :: cs) (lineText_unique hid hline), hr⟩

/-- Statements on their own lines are told apart by their text. -/
theorem toText_inj {s s' : Statement} (hs : s.OneLine) (hs' : s'.OneLine) (h : s.toText = s'.toText) : s = s' := by
  have hlines : ∀ {s : Statement}, s.OneLine → s.toText.splitOn '\n' =
      s.components.map lineText ++ ["\"@signature-params\": ".toList ++ s.paramsText] := by
    intro s hs
    have hlast : '\n' ∉ "\"@signature-params\": ".toList ++ s.paramsText := by
      rw [List.mem_append, not_or]
      exact ⟨by decide, hs.params⟩
    rw [toText, splitOn_lines, List.splitOn_eq_singleton hlast]
    intro l hl
    obtain ⟨c, hc, rfl⟩ := List.mem_map.mp hl
    obtain ⟨hid, hvalue⟩ := hs.components c hc
    rw [lineText, List.mem_append, List.mem_cons, List.mem_cons, not_or, not_or, not_or]
    exact ⟨hid, by decide, by decide, hvalue⟩
  have hsplit := congrArg (List.splitOn '\n') h
  rw [hlines hs, hlines hs'] at hsplit
  obtain ⟨hcs, hlast⟩ := List.append_inj' hsplit rfl
  have hparams : s.paramsText = s'.paramsText := List.append_cancel_left (List.cons.inj hlast).1
  rw [paramsText, paramsText, List.cons_append, List.cons_append] at hparams
  obtain ⟨hcomponents, htail⟩ := components_unique hcs (List.cons.inj hparams).2
  obtain ⟨hc, he, hd⟩ := tailText_unique htail
  cases s
  cases s'
  cases hcomponents
  cases hc
  cases he
  cases hd
  rfl

end Statement

/-! ### What a base says -/

def HttpSignatureBase.statement (base : HttpSignatureBase) : Statement where
  components := base.componentLines.map fun l => (l.id.toText, l.value.toText)
  created := base.signatureParams.created
  expires := base.signatureParams.expires
  description := base.signatureParams.descriptionText
  follows := base.signatureParams.follows_descriptionText

namespace Message
variable {β β' γ γ' : Type} {m : Message β γ} {m' : Message β' γ'} {p p' : HttpSignatureParams}
  {base base' : HttpSignatureBase}

theorem paramsText_statement (h : m.signatureBase p = .ok base) : base.statement.paramsText = p.toText := by
  obtain ⟨hids, -, hp⟩ := lines_of_signatureBase h
  rw [HttpSignatureParams.toText_eq_description, Statement.paramsText, Statement.tailText, ← hids]
  simp only [HttpSignatureBase.statement, hp, List.map_map]
  rfl

/-- The bytes of a base are those of what it says. -/
theorem toText_statement (h : m.signatureBase p = .ok base) : base.statement.toText = base.toText := by
  obtain ⟨-, -, hp⟩ := lines_of_signatureBase h
  rw [Statement.toText, paramsText_statement h, HttpSignatureBase.toText, hp, List.append_assoc, List.flatMap_map]
  simp only [HttpSignatureBase.statement, List.flatMap_map]
  rfl

theorem oneLine_statement (h : m.signatureBase p = .ok base) (hp : '\n' ∉ p.toText) : base.statement.OneLine := by
  obtain ⟨hids, hvalues, -⟩ := lines_of_signatureBase h
  refine ⟨fun c hc => ?_, by rwa [paramsText_statement h]⟩
  obtain ⟨l, hl, rfl⟩ := List.mem_map.mp hc
  refine ⟨fun hm => hp ?_, hvalues l hl⟩
  exact HttpSignatureParams.newline_mem_toText.mpr (Or.inl ⟨l.id, hids ▸ List.mem_map_of_mem hl, hm⟩)

/-- What the bytes of a base tell is what it says. -/
theorem statement_of_asBytes (h : m.signatureBase p = .ok base) (h' : m'.signatureBase p' = .ok base')
    (hp : '\n' ∉ p.toText) (hp' : '\n' ∉ p'.toText) (hbytes : base.asBytes = base'.asBytes) :
    base.statement = base'.statement := by
  refine Statement.toText_inj (oneLine_statement h hp) (oneLine_statement h' hp') ?_
  rw [toText_statement h, toText_statement h']
  exact utf8Bytes_injective hbytes

/-- Bases of any two messages have the same bytes exactly when they say the same: the same ids with the same values
in the same order, the same times, and the same print of the other parameters. -/
theorem asBytes_eq_iff (h : m.signatureBase p = .ok base) (h' : m'.signatureBase p' = .ok base') (hp : '\n' ∉ p.toText)
    (hp' : '\n' ∉ p'.toText) : base.asBytes = base'.asBytes ↔ base.statement = base'.statement := by
  refine ⟨statement_of_asBytes h h' hp hp', fun hs => ?_⟩
  rw [HttpSignatureBase.asBytes, HttpSignatureBase.asBytes, ← toText_statement h, ← toText_statement h', hs]

/-- The base of a request under parameters with a tag. -/
def taggedBase : HttpSignatureBase where
  componentLines := methodBase.componentLines
  signatureParams := { methodBase.signatureParams with tag := some "t".toList }
  length_eq := methodBase.length_eq
  ids_match := methodBase.ids_match

theorem taggedBase_ne : methodBase.asBytes ≠ taggedBase.asBytes := by
  have h : twiceSigned.signatureBase methodBase.signatureParams = .ok methodBase := by decide
  have h' : (Message.request (getRequest []) : Message Unit Unit).signatureBase taggedBase.signatureParams =
      .ok taggedBase := by decide
  intro hbytes
  have hs := (asBytes_eq_iff h h' (by decide) (by decide)).mp hbytes
  have hd := congrArg Statement.description hs
  revert hd
  decide

end Message
end HttpSig
