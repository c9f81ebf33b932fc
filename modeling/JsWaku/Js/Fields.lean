import JsWaku.Js.Read

/-!
# JsWaku.Js.Fields

Protobuf messages as generated code reads them: a loop over tagged fields from `reader.pos` to an
end that may lie inside a longer buffer.

* `Decoder`  — a message type: the message before any field is read, and what one field does to it.
* `fields`   — the `while (reader.pos < end)` loop; `decode` runs it over a buffer, `embedded` over a
  length read first, on the same reader.
* `Acts d c g` — the bytes `c` are fields that do `g` to the message read so far, wherever the loop
  meets them (`Acts.run`). A message whose bytes act can be embedded (`reads_embedded`).
* `CutKeeps`  — what a buffer that ends inside a message cannot spoil.
* `Skippable` — the payloads of a field that `skipType` steps over.
* `Extends d c c'` — `c'` is `c` with fields put in that the message type does not know, at any level;
  `extends_decode` says that they change nothing.
-/

namespace JsWaku
namespace Js
namespace Protobuf

structure Decoder (α : Type) where
  base : α
  field : Nat → α → Read α
  forward : ∀ tag m, Advances (field tag m)

namespace Decoder

variable {α : Type} (d : Decoder α)

/-- One turn of the loop: a tag and its field. -/
def turn (m : α) : Read α := fun buf pos => do
  let (tag, pos) ← Read.uint32 buf pos
  d.field tag m buf pos

theorem turn_lt {m m' : α} {buf : Bytes} {pos pos' : Nat} (h : d.turn m buf pos = .ok (m', pos')) :
    pos < pos' := by
  obtain ⟨⟨tag, p⟩, htag, h⟩ := bind_eq_ok h
  have h0 := lt_of_uint32 htag
  have h1 : p ≤ pos' := d.forward tag m h
  omega

def fields (stop : Nat) (m : α) : Read α := fun buf pos =>
  if pos < stop then
    match _h : d.turn m buf pos with
    | .error e => .error e
    | .ok (m', pos') => fields stop m' buf pos'
  else .ok (m, pos)
termination_by _ pos => stop - pos
decreasing_by
  have hlt := d.turn_lt _h
  omega

/-- `decode(reader)`, on a reader at its start. -/
def decode (buf : Bytes) : Except Thrown α := do
  let (m, _) ← d.fields buf.length d.base buf 0
  return m

/-- `decode(reader, reader.uint32())` -/
def embedded : Read α := fun buf pos => do
  let (length, pos) ← Read.uint32 buf pos
  d.fields (pos + length) d.base buf pos

section

variable {d} {stop : Nat} {m m' : α} {buf : Bytes} {pos pos' : Nat}

theorem fields_done (h : stop ≤ pos) : d.fields stop m buf pos = .ok (m, pos) := by
  rw [fields, if_neg (by omega)]

theorem fields_step (hlt : pos < stop) (h : d.turn m buf pos = .ok (m', pos')) :
    d.fields stop m buf pos = d.fields stop m' buf pos' := by
  rw [fields, if_pos hlt]
  split
  · rename_i e he; rw [h] at he; cases he
  · rename_i he; rw [h] at he; cases he; rfl

theorem fields_error {e : Thrown} (hlt : pos < stop) (h : d.turn m buf pos = .error e) :
    d.fields stop m buf pos = .error e := by
  rw [fields, if_pos hlt]
  split
  · rename_i e' he; rw [h] at he; cases he; rfl
  · rename_i he; rw [h] at he; cases he

/-- What a turn keeps, the loop keeps. -/
theorem fields_invariant (P : α → Nat → Prop)
    (hturn : ∀ {m pos m' pos'}, P m pos → d.turn m buf pos = .ok (m', pos') → P m' pos') :
    P m pos → d.fields stop m buf pos = .ok (m', pos') → P m' pos' ∧ stop ≤ pos' := by
  induction h : stop - pos using Nat.strongRecOn generalizing m pos with
  | ind n ih =>
    intro hP hr
    by_cases hlt : pos < stop
    · cases ht : d.turn m buf pos with
      | error e => rw [fields_error hlt ht] at hr; cases hr
      | ok r =>
        obtain ⟨m₁, pos₁⟩ := r
        have hpos := d.turn_lt ht
        rw [fields_step hlt ht] at hr
        exact ih (stop - pos₁) (by omega) rfl (hturn hP ht) hr
    · rw [fields_done (by omega)] at hr
      cases hr
      exact ⟨hP, by omega⟩

theorem advances_embedded : Advances d.embedded := by
  intro buf pos m pos' h
  obtain ⟨⟨length, p⟩, hlen, h⟩ := bind_eq_ok h
  have h0 := lt_of_uint32 hlen
  have h1 := (fields_invariant (P := fun _ q => p ≤ q)
    (fun hle ht => by have := d.turn_lt ht; omega) (Nat.le_refl p) h).1
  omega

/-- No field of the message steps more than `past` bytes past the end. -/
def Within (d : Decoder α) (past : Nat) : Prop := ∀ tag m, Inside past (d.field tag m)

theorem turn_inside {past : Nat} (hd : d.Within past) (h : d.turn m buf pos = .ok (m', pos')) :
    pos' ≤ buf.length + past := by
  obtain ⟨⟨tag, p⟩, _, h⟩ := bind_eq_ok h
  exact hd tag m h

theorem fields_inside {past : Nat} (hd : d.Within past) (hpos : pos ≤ buf.length + past)
    (h : d.fields stop m buf pos = .ok (m', pos')) : pos' ≤ buf.length + past ∧ stop ≤ pos' :=
  fields_invariant (P := fun _ q => q ≤ buf.length + past) (fun _ ht => turn_inside hd ht) hpos h

theorem inside_embedded {past : Nat} (hd : d.Within past) : Inside past d.embedded := by
  intro buf pos m pos' h
  obtain ⟨⟨length, p⟩, hlen, h⟩ := bind_eq_ok h
  have hp : p ≤ buf.length + past := inside_reading hlen
  exact (fields_inside hd hp h).1

end

inductive Acts : Bytes → (α → α) → Prop where
  | nil : Acts [] id
  /-- A tag, a payload that its field reads, and what comes after it. -/
  | field {tag : Nat} {c rest : Bytes} {g g' : α → α} : tag < 2 ^ 32 →
      (∀ m, Reads (d.field tag m) c (g m)) → Acts rest g' →
      Acts (varint tag ++ c ++ rest) fun m => g' (g m)

variable {d} {c c' : Bytes} {g g' : α → α}

/-- One field, met by the loop. -/
theorem fields_field {tag stop : Nat} {rest before after : Bytes} {m : α} (htag : tag < 2 ^ 32)
    (h : ∀ m, Reads (d.field tag m) c (g m))
    (hstop : before.length + (varint tag ++ c ++ rest).length ≤ stop) :
    d.fields stop m (before ++ (varint tag ++ c ++ rest) ++ after) before.length =
      d.fields stop (g m) (before ++ (varint tag ++ c) ++ (rest ++ after))
        (before ++ (varint tag ++ c)).length := by
  have hpos : 0 < (varint tag).length := by rw [varint]; split <;> simp
  have hread := reads_uint32 htag before (c ++ (rest ++ after))
  have hfield := h m (before ++ varint tag) (rest ++ after)
  simp only [List.length_append] at hstop
  simp only [List.append_assoc, List.length_append, Nat.add_assoc] at hread hfield ⊢
  refine fields_step (by omega) ?_
  rw [turn, hread, ok_bind]
  simp only [hfield]

theorem Acts.run (h : d.Acts c g) : ∀ before after stop m, before.length + c.length ≤ stop →
    d.fields stop m (before ++ c ++ after) before.length =
      d.fields stop (g m) (before ++ c ++ after) (before.length + c.length) := by
  induction h with
  | nil => intro before after stop m _; rfl
  | @field tag c rest g g' htag h _ ih =>
    intro before after stop m hstop
    have hstop' := hstop
    rw [List.length_append, ← Nat.add_assoc, ← List.length_append] at hstop'
    have hrest := ih (before ++ (varint tag ++ c)) after stop (g m) hstop'
    rw [fields_field htag h hstop]
    simp only [List.append_assoc, List.length_append, Nat.add_assoc] at hrest ⊢
    exact hrest

theorem acts_nil : d.Acts [] id := .nil

theorem Acts.append (h : d.Acts c g) (h' : d.Acts c' g') :
    d.Acts (c ++ c') fun m => g' (g m) := by
  induction h with
  | nil => exact h'
  | @field tag c rest g g₁ htag h _ ih =>
    rw [List.append_assoc]
    exact .field (g := g) htag h ih

/-- A tag and a payload that its field reads. -/
theorem acts_field {tag : Nat} (htag : tag < 2 ^ 32) (h : ∀ m, Reads (d.field tag m) c (g m)) :
    d.Acts (varint tag ++ c) g := by
  rw [← List.append_nil (varint tag ++ c)]
  exact .field (g := g) htag h .nil

theorem acts_read {β : Type} (f : α → β → α) {tag : Nat} {read : Read β} {v : β}
    (htag : tag < 2 ^ 32) (hfield : ∀ m, d.field tag m = read.map (f m)) (h : Reads read c v) :
    d.Acts (varint tag ++ c) fun m => f m v := by
  refine acts_field htag fun m => ?_
  rw [hfield m]
  exact h.map (f m)

/-- A field written only when it is there. -/
theorem acts_option {β : Type} {o : Option β} {enc : β → Bytes}
    (h : ∀ v, o = some v → d.Acts (enc v) g) (h' : o = none → ∀ m, g m = m) :
    d.Acts (o.elim [] enc) g := by
  cases o with
  | none =>
    have hid : g = id := funext (h' rfl)
    rw [hid]
    exact acts_nil
  | some v => exact h v rfl

theorem acts_ite {p : Prop} [Decidable p] (h : p → d.Acts c g) (h' : ¬ p → ∀ m, g m = m) :
    d.Acts (if p then c else []) g := by
  split
  · rename_i hp; exact h hp
  · rename_i hp
    have hid : g = id := funext (h' hp)
    rw [hid]
    exact acts_nil

theorem acts_flatMap {β : Type} {enc : β → Bytes} {f : β → α → α} {xs : List β}
    (h : ∀ x ∈ xs, d.Acts (enc x) (f x)) :
    d.Acts (xs.flatMap enc) fun m => xs.foldl (fun m x => f x m) m := by
  induction xs with
  | nil => exact acts_nil
  | cons x xs ih =>
    have hx := h x List.mem_cons_self
    have hxs := ih fun y hy => h y (List.mem_cons_of_mem x hy)
    exact hx.append hxs

theorem decode_of_acts (h : d.Acts c g) : d.decode c = .ok (g d.base) := by
  have hrun := h.run [] [] c.length d.base (by simp)
  simp only [List.nil_append, List.append_nil, List.length_nil, Nat.zero_add] at hrun
  rw [decode, hrun, fields_done (Nat.le_refl _)]
  rfl

theorem reads_embedded (h : d.Acts c g) (hlen : c.length < 2 ^ 32) :
    Reads d.embedded (lenPrefixed c) (g d.base) := by
  intro before after
  have hread := reads_uint32 hlen before (c ++ after)
  have hrun := h.run (before ++ varint c.length) after
    (before.length + (varint c.length).length + c.length) d.base (by rw [List.length_append])
  simp only [lenPrefixed, List.append_assoc, List.length_append] at hread hrun ⊢
  rw [embedded, hread, ok_bind]
  simp only [hrun]
  rw [fields_done (by omega), Nat.add_assoc]

end Decoder

/-- `if (v !== undefined) encode(v, writer.uint32(tag).fork()).ldelim()` -/
def forkOption {β : Type} (tag : Nat) (encode : β → Except Thrown Bytes) :
    Option β → Except Thrown Bytes
  | none => .ok []
  | some v => do
    let b ← encode v
    return varint tag ++ lenPrefixed b

theorem forkOption_ok {β : Type} {tag : Nat} {encode : β → Except Thrown Bytes} {o : Option β}
    {c : Bytes} (h : forkOption tag encode o = .ok c) :
    (o = none ∧ c = []) ∨
      ∃ v b, o = some v ∧ encode v = .ok b ∧ c = varint tag ++ lenPrefixed b := by
  cases o with
  | none => cases h; exact .inl ⟨rfl, rfl⟩
  | some v =>
    obtain ⟨b, hb, h⟩ := bind_eq_ok h
    cases h
    exact .inr ⟨v, b, rfl, hb, rfl⟩

/-- A field for an embedded message keeps what the bytes of the message give. -/
theorem Decoder.acts_forkOption {α β : Type} {d : Decoder α} {e : Decoder β}
    (f : α → β → α) (read : β → β) {tag : Nat} {encode : β → Except Thrown Bytes} {o : Option β}
    {c : Bytes} (htag : tag < 2 ^ 32) (hfield : ∀ m, d.field tag m = e.embedded.map (f m))
    (hc : forkOption tag encode o = .ok c) (hlen : c.length < 2 ^ 32)
    (h : ∀ v b, o = some v → encode v = .ok b → b.length < 2 ^ 32 →
      ∃ g, e.Acts b g ∧ g e.base = read v) :
    d.Acts c fun m => o.elim m fun v => f m (read v) := by
  rcases forkOption_ok hc with ⟨rfl, rfl⟩ | ⟨v, b, rfl, hb, rfl⟩
  · exact acts_nil
  · simp only [lenPrefixed, List.length_append] at hlen
    obtain ⟨g, hg, hread⟩ := h v b rfl hb (by omega)
    have hembedded := reads_embedded hg (by omega)
    rw [hread] at hembedded
    exact acts_read f htag hfield hembedded

theorem length_le_flatMap {β : Type} {enc : β → Bytes} {xs : List β} {x : β} (h : x ∈ xs) :
    (enc x).length ≤ (xs.flatMap enc).length := by
  obtain ⟨before, after, rfl⟩ := List.append_of_mem h
  simp only [List.flatMap_append, List.flatMap_cons, List.length_append]
  omega

/-- A repeated field adds what its messages give at the end of a list. -/
theorem Decoder.acts_repeated {α β : Type} {d : Decoder α} {e : Decoder β}
    (f : α → List β → α) {tag : Nat} {enc : β → Bytes} {xs : List β}
    (hnil : ∀ m, f m [] = m) (happend : ∀ m ys zs, f (f m ys) zs = f m (ys ++ zs))
    (htag : tag < 2 ^ 32) (hfield : ∀ m, d.field tag m = e.embedded.map fun v => f m [v])
    (hlen : (xs.flatMap fun x => varint tag ++ lenPrefixed (enc x)).length < 2 ^ 32)
    (h : ∀ x ∈ xs, (enc x).length < 2 ^ 32 → ∃ g, e.Acts (enc x) g ∧ g e.base = x) :
    d.Acts (xs.flatMap fun x => varint tag ++ lenPrefixed (enc x)) fun m => f m xs := by
  have hone : ∀ x ∈ xs, d.Acts (varint tag ++ lenPrefixed (enc x)) fun m => f m [x] := by
    intro x hx
    have hle := @length_le_flatMap _ (fun x => varint tag ++ lenPrefixed (enc x)) _ _ hx
    simp only [lenPrefixed, List.length_append] at hle hlen
    obtain ⟨g, hg, hread⟩ := h x hx (by omega)
    have hembedded := reads_embedded hg (by omega)
    rw [hread] at hembedded
    exact acts_read (fun m v => f m [v]) htag hfield hembedded
  have hfold : ∀ m, xs.foldl (fun m x => f m [x]) m = f m xs := by
    clear hlen h hone
    induction xs with
    | nil => intro m; exact (hnil m).symm
    | cons x xs ih => intro m; rw [List.foldl_cons, ih, happend]; rfl
  have hall := acts_flatMap hone
  simp only [hfold] at hall
  exact hall

/-! ## Messages cut short -/

/-- `P` still holds of a message read to the end of the buffer where the buffer ends `short` bytes
or more before `c` does. -/
def Decoder.CutKeeps {α : Type} (d : Decoder α) (P : α → Prop) (short : Nat) (c : Bytes) : Prop :=
  ∀ ⦃before cut m m' pos'⦄, cut <+: c → cut.length + short ≤ c.length → P m →
    d.fields (before ++ cut).length m (before ++ cut) before.length = .ok (m', pos') → P m'

section

variable {α : Type} {d : Decoder α} {P : α → Prop} {short : Nat} {c c' : Bytes} {g : α → α}

theorem Decoder.cutKeeps_nil (h : 0 < short) : d.CutKeeps P short [] := by
  intro before cut m m' pos' _ hshort
  rw [List.length_nil] at hshort
  omega

theorem Decoder.CutKeeps.append (hc : d.CutKeeps P 1 c) (hacts : d.Acts c g)
    (hg : ∀ m, P m → P (g m)) (hc' : d.CutKeeps P short c') : d.CutKeeps P short (c ++ c') := by
  intro before cut m m' pos' hcut hshort hm h
  rcases cut_append hcut with ⟨hfirst, hne⟩ | ⟨cut', rfl, hsecond⟩
  · have hlt : cut.length < c.length :=
      Nat.lt_of_le_of_ne hfirst.length_le fun heq => hne (hfirst.eq_of_length heq)
    exact hc hfirst (by omega) hm h
  · have hrun := hacts.run before cut' (before ++ (c ++ cut')).length m (by simp)
    rw [List.append_assoc] at hrun
    rw [hrun] at h
    rw [← List.append_assoc, ← List.length_append] at h
    refine hc' hsecond ?_ (hg m hm) h
    simp only [List.length_append] at hshort
    omega

/-- A field, of which a read that succeeds reaches the end of the buffer. -/
theorem Decoder.cutKeeps_field {tag : Nat} (htag : tag < 2 ^ 32)
    (hfield : ∀ ⦃before cut m m' pos'⦄, cut <+: c → cut.length + short ≤ c.length → P m →
      d.field tag m (before ++ cut) before.length = .ok (m', pos') →
      P m' ∧ (before ++ cut).length ≤ pos') : d.CutKeeps P short (varint tag ++ c) := by
  intro before cut m m' pos' hcut hshort hm h
  by_cases hnil : cut = []
  · subst hnil
    rw [fields_done (by simp)] at h
    cases h
    exact hm
  · have hlt : before.length < (before ++ cut).length := by
      have hcutpos := List.length_pos_iff.mpr hnil
      rw [List.length_append]
      omega
    rcases cut_append hcut with ⟨htagcut, hne⟩ | ⟨cut', rfl, hcut'⟩
    · obtain ⟨e, he⟩ := uint32_cut htag htagcut hne before
      have hturn : d.turn m (before ++ cut) before.length = .error e := by
        rw [turn, he, error_bind]
      rw [fields_error hlt hturn] at h
      cases h
    · have hread := reads_uint32 htag before cut'
      rw [List.append_assoc] at hread
      cases hturn : d.turn m (before ++ (varint tag ++ cut')) before.length with
      | error e => rw [fields_error hlt hturn] at h; cases h
      | ok r =>
        obtain ⟨m₁, pos₁⟩ := r
        have hone : d.field tag m (before ++ varint tag ++ cut') (before ++ varint tag).length =
            .ok (m₁, pos₁) := by
          rw [turn, hread, ok_bind] at hturn
          rw [List.append_assoc, List.length_append]
          exact hturn
        simp only [List.length_append] at hshort
        have hkept := hfield hcut' (by omega) hm hone
        rw [fields_step hlt hturn, fields_done (by simpa using hkept.2)] at h
        cases h
        exact hkept.1

/-- A field for an embedded message that reads no further past the end than `past`: cut by more, it
is not read at all. -/
theorem Decoder.embedded_cut {past : Nat} (hd : d.Within past) {cut before : Bytes}
    (hlen : c.length < 2 ^ 32) (hcut : cut <+: lenPrefixed c)
    (hshort : cut.length < (lenPrefixed c).length) {m : α} {pos' : Nat}
    (h : d.embedded (before ++ cut) before.length = .ok (m, pos')) :
    before.length + (lenPrefixed c).length ≤ pos' ∧ pos' ≤ (before ++ cut).length + past := by
  rcases cut_append hcut with ⟨hlencut, hne⟩ | ⟨cut', rfl, hcut'⟩
  · obtain ⟨e, he⟩ := uint32_cut hlen hlencut hne before
    rw [embedded, he, error_bind] at h
    cases h
  · have hread := reads_uint32 hlen before cut'
    rw [List.append_assoc] at hread
    rw [embedded, hread, ok_bind] at h
    have hends := fields_inside hd (by simp; omega) h
    simp only [lenPrefixed, List.length_append] at hends ⊢
    omega

theorem Decoder.cutKeeps_ite {p : Prop} [Decidable p] (hpos : 0 < short)
    (h : p → d.CutKeeps P short c) : d.CutKeeps P short (if p then c else []) := by
  split
  · rename_i hp; exact h hp
  · exact cutKeeps_nil hpos

theorem Decoder.cutKeeps_option {β : Type} {o : Option β} {enc : β → Bytes} (hpos : 0 < short)
    (h : ∀ v, o = some v → d.CutKeeps P short (enc v)) : d.CutKeeps P short (o.elim [] enc) := by
  cases o with
  | none => exact cutKeeps_nil hpos
  | some v => exact h v rfl

theorem Decoder.cutKeeps_embedded {β : Type} {e : Decoder β} {past tag : Nat} (f : α → β → α)
    (htag : tag < 2 ^ 32) (hfield : ∀ m, d.field tag m = e.embedded.map (f m))
    (he : e.Within past) (hlen : c.length < 2 ^ 32) (hpos : 0 < short)
    (hP : past < short ∨ ∀ m v, P m → P (f m v)) :
    d.CutKeeps P short (varint tag ++ lenPrefixed c) := by
  refine cutKeeps_field htag fun before cut m m' pos' hcut hshort hm h => ?_
  rw [hfield] at h
  obtain ⟨⟨v, p⟩, hv, h⟩ := bind_eq_ok h
  cases h
  have hends := embedded_cut he hlen hcut (by omega) hv
  rw [List.length_append] at hends ⊢
  rcases hP with hpast | hkeep
  · omega
  · exact ⟨hkeep m v hm, by omega⟩

theorem Decoder.cutKeeps_forkOption {β : Type} {e : Decoder β} {past tag : Nat} (f : α → β → α)
    {encode : β → Except Thrown Bytes} {o : Option β} (htag : tag < 2 ^ 32)
    (hfield : ∀ m, d.field tag m = e.embedded.map (f m)) (hc : forkOption tag encode o = .ok c)
    (he : e.Within past) (hlen : c.length < 2 ^ 32) (hpos : 0 < short)
    (hP : past < short ∨ ∀ m v, P m → P (f m v)) : d.CutKeeps P short c := by
  rcases forkOption_ok hc with ⟨rfl, rfl⟩ | ⟨v, b, rfl, hb, rfl⟩
  · exact cutKeeps_nil hpos
  · simp only [lenPrefixed, List.length_append] at hlen
    exact cutKeeps_embedded f htag hfield he (by omega) hpos hP

theorem Decoder.decode_cut (hc : d.CutKeeps P short c) (hbase : P d.base) {cut : Bytes}
    (hcut : cut <+: c) (hshort : cut.length + short ≤ c.length) {m : α}
    (h : d.decode cut = .ok m) : P m := by
  obtain ⟨⟨m', pos'⟩, hr, h⟩ := bind_eq_ok h
  cases h
  exact @hc [] cut _ _ _ hcut hshort hbase hr

end

/-- The payloads of each wire type; a group is its fields up to an end tag. -/
inductive Skippable : Nat → Bytes → Prop where
  | varint (n : Nat) : Skippable 0 (varint n)
  | eight {c : Bytes} : c.length = 8 → Skippable 1 c
  | lenPrefixed {c : Bytes} : c.length < 2 ^ 32 → Skippable 2 (lenPrefixed c)
  | groupEnd {number : Nat} : 8 * number + 4 < 2 ^ 32 →
      Skippable 3 (Protobuf.varint (8 * number + 4))
  | groupField {tag : Nat} {c rest : Bytes} : tag < 2 ^ 32 → tag % 8 ≠ 4 →
      Skippable (tag % 8) c → Skippable 3 rest → Skippable 3 (Protobuf.varint tag ++ c ++ rest)
  | four {c : Bytes} : c.length = 4 → Skippable 5 c

theorem skipVarint_varint (rest : Bytes) (n : Nat) :
    skipVarint (varint n ++ rest) = .ok rest := by
  induction n using Nat.strongRecOn with
  | ind n ih =>
    rw [varint]
    split
    · rename_i hn
      have hx : (UInt8.ofNat n).toNat = n := by simp; omega
      simp only [List.cons_append, List.nil_append, skipVarint, hx, if_pos hn]
    · rename_i hn
      have hx : (UInt8.ofNat (n % 128 + 128)).toNat = n % 128 + 128 := by simp; omega
      simp only [List.cons_append, skipVarint, hx]
      rw [if_neg (by omega)]
      exact ih (n / 128) (by omega)

theorem skip_append (c rest : Bytes) : skip c.length (c ++ rest) = .ok rest := by
  rw [skip, if_neg (by simp), List.drop_left]

theorem skipType_append {wireType : Nat} {c : Bytes} (h : Skippable wireType c) :
    ∀ {fuel : Nat} {rest : Bytes}, c.length ≤ fuel → skipType fuel wireType (c ++ rest) = .ok rest := by
  induction h with
  | varint n => intro fuel rest _; simpa [skipType] using skipVarint_varint rest n
  | @eight c hc => intro fuel rest _; simpa [skipType, hc] using skip_append c rest
  | @lenPrefixed c hc =>
    intro fuel rest _
    simp only [skipType, lenPrefixed, List.append_assoc, uint32_varint hc, ok_bind]
    exact skip_append c rest
  | @groupEnd number hn =>
    intro fuel rest hfuel
    have hpos : 0 < (varint (8 * number + 4)).length := by rw [varint]; split <;> simp
    obtain ⟨fuel, rfl⟩ : ∃ k, fuel = k + 1 := ⟨fuel - 1, by omega⟩
    simp only [skipType, uint32_varint hn, ok_bind]
    rw [if_pos (by omega)]
    rfl
  | @groupField tag c more htag hne _ _ ihc ihmore =>
    intro fuel rest hfuel
    have hpos : 0 < (varint tag).length := by rw [varint]; split <;> simp
    simp only [List.length_append] at hfuel
    obtain ⟨fuel, rfl⟩ : ∃ k, fuel = k + 1 := ⟨fuel - 1, by omega⟩
    simp only [skipType, List.append_assoc, uint32_varint htag, ok_bind]
    rw [if_neg hne, ihc (by omega), ok_bind, ihmore (by omega)]
  | @four c hc => intro fuel rest _; simpa [skipType, hc] using skip_append c rest

theorem reads_skipType {wireType : Nat} {c : Bytes} (h : Skippable wireType c) :
    Reads (Read.skipType wireType) c () := by
  refine reads_reading fun rest => ?_
  rw [skipType_append h (by simp)]
  rfl

/-- The field is not one of the message type. -/
def Decoder.Unknown {α : Type} (d : Decoder α) (tag : Nat) : Prop :=
  ∀ m, d.field tag m = (Read.skipType (tag % 8)).map fun _ => m

inductive Decoder.Extends : {α : Type} → Decoder α → Bytes → Bytes → Prop where
  | nil {α : Type} {d : Decoder α} : Extends d [] []
  /-- A field that the other side knows and this one does not. -/
  | unknown {α : Type} {d : Decoder α} {tag : Nat} {u c c' : Bytes} : tag < 2 ^ 32 →
      d.Unknown tag → Skippable (tag % 8) u → Extends d c c' →
      Extends d c (varint tag ++ u ++ c')
  | field {α : Type} {d : Decoder α} {tag : Nat} {p c c' : Bytes} {g : α → α} : tag < 2 ^ 32 →
      (∀ m, Reads (d.field tag m) p (g m)) → Extends d c c' →
      Extends d (varint tag ++ p ++ c) (varint tag ++ p ++ c')
  /-- A field for an embedded message, which is extended in turn. -/
  | embedded {α β : Type} {d : Decoder α} {e : Decoder β} (f : α → β → α) {tag : Nat}
      {b b' c c' : Bytes} : tag < 2 ^ 32 → (∀ m, d.field tag m = e.embedded.map (f m)) →
      Extends e b b' → b.length < 2 ^ 32 → b'.length < 2 ^ 32 → Extends d c c' →
      Extends d (varint tag ++ lenPrefixed b ++ c) (varint tag ++ lenPrefixed b' ++ c')

section

variable {α : Type} {d : Decoder α} {c c' : Bytes}

/-- With the fields put in and without them, the bytes act alike. -/
theorem Decoder.extends_acts (h : d.Extends c c') : ∃ g, d.Acts c g ∧ d.Acts c' g := by
  induction h with
  | nil => exact ⟨id, .nil, .nil⟩
  | unknown htag hunknown hskip _ ih =>
    obtain ⟨g, hc, hc'⟩ := ih
    refine ⟨g, hc, .field (g := id) htag (fun m => ?_) hc'⟩
    rw [hunknown m]
    exact (reads_skipType hskip).map fun _ => m
  | @field _ _ _ _ _ _ g htag hread _ ih =>
    obtain ⟨g', hc, hc'⟩ := ih
    exact ⟨_, .field (g := g) htag hread hc, .field (g := g) htag hread hc'⟩
  | @embedded _ _ d e f tag b b' _ _ htag hfield _ hlen hlen' _ ihe ih =>
    obtain ⟨ge, hb, hb'⟩ := ihe
    obtain ⟨g', hc, hc'⟩ := ih
    have hread : ∀ m, Reads (d.field tag m) (lenPrefixed b) (f m (ge e.base)) := fun m => by
      rw [hfield m]
      exact (reads_embedded hb hlen).map (f m)
    have hread' : ∀ m, Reads (d.field tag m) (lenPrefixed b') (f m (ge e.base)) := fun m => by
      rw [hfield m]
      exact (reads_embedded hb' hlen').map (f m)
    exact ⟨_, .field (g := fun m => f m (ge e.base)) htag hread hc,
      .field (g := fun m => f m (ge e.base)) htag hread' hc'⟩

theorem Decoder.extends_decode (h : d.Extends c c') : d.decode c' = d.decode c := by
  obtain ⟨g, hc, hc'⟩ := extends_acts h
  rw [decode_of_acts hc, decode_of_acts hc']

/-- Nothing put in. -/
theorem Decoder.Acts.extends {g : α → α} (h : d.Acts c g) : d.Extends c c := by
  induction h with
  | nil => exact .nil
  | @field _ _ _ g _ htag hread _ ih => exact .field (g := g) htag hread ih

end

end Protobuf
end Js
end JsWaku
