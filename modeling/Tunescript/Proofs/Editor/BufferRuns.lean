import Tunescript.Editor.Indexed
import Tunescript.Proofs.Editor.BufferText

/-!
# Buffers over any run of calls

Calls edit what is there, keep it, and bring back what has been kept.  Operations of one kind refine
those of another through a view if each does to what is viewed what the other does, be it that it
fails (`Refines`); then so does any run of calls (`Refines.run`).  The operations of buffers refine
those of one plain text, which are splices and copies (`chunked_refines_plain`).
-/

namespace Tunescript.Buffer

namespace Program

variable {β γ α : Type}

/-- What is there after an operation, whether it has failed or not. -/
def left : EStateM.Result BufferError β α → β
  | .ok _ b => b
  | .error _ b => b

/-- What an operation returns, or why it fails. -/
def outcome : EStateM.Result BufferError β α → Except BufferError α
  | .ok a _ => .ok a
  | .error e _ => .error e

/-- The end of an operation with what is there seen through a view. -/
def seen (view : β → γ) : EStateM.Result BufferError β α → EStateM.Result BufferError γ α
  | .ok a b => .ok a (view b)
  | .error e b => .error e (view b)

variable (view : β → γ) (r : EStateM.Result BufferError β α)

@[simp]
theorem left_seen :
  left (seen view r) = view (left r)
  := by
  cases r <;> rfl

@[simp]
theorem seen_seen {δ : Type} (view' : γ → δ) :
  seen view' (seen view r) = seen (fun b => view' (view b)) r
  := by
  cases r <;> rfl

/-- Puts what is made of what is there in its place, unless there is no such thing. -/
def assign (f : β → Except BufferError β) : Program β Unit := do
  match f (← get) with
  | .ok b => set b
  | .error e => throw e

theorem assign_apply (f : β → Except BufferError β) (b : β) :
  assign f b = match f b with
    | .ok b' => .ok () b'
    | .error e => .error e b
  := by
  have happly : assign f b = (match f b with
      | .ok b' => set b'
      | .error e => throw e : Program β Unit) b := rfl
  rw [happly]
  cases f b <;> rfl

/-- One operation does to what is viewed what another one does, and keeps an invariant. -/
def Mirrors (inv : β → Prop) (view : β → γ) (p : Program β α) (q : Program γ α) : Prop :=
  ∀ b, inv b → seen view (p b) = q (view b) ∧ inv (left (p b))

theorem Mirrors.trans {δ : Type} {inv : β → Prop} {view : β → γ} {view' : γ → δ} {p : Program β α}
    {q : Program γ α} {q' : Program δ α} (h : Mirrors inv view p q)
    (h' : Mirrors (fun _ => True) view' q q') :
  Mirrors inv (view' ∘ view) p q'
  := by
  intro b hb
  obtain ⟨hseen, hinv⟩ := h b hb
  obtain ⟨hseen', -⟩ := h' (view b) trivial
  rw [← hseen, seen_seen] at hseen'
  exact ⟨hseen', hinv⟩

end Program

open Program

/-- A call that edits, keeps what is there, or brings back what has been kept. -/
inductive Call where
  /-- Puts a text in at a position. -/
  | insert (i : Int) (s : Text)
  /-- Takes a range out. -/
  | remove (start stop : Int)
  /-- Puts a text in the place of everything. -/
  | setText (t : Text)
  /-- Keeps what is there, behind everything that has been kept. -/
  | snapshot
  /-- Brings back what has been kept as the one of the given number, if there is one. -/
  | restore (k : Nat)
deriving DecidableEq, Repr

/-- What is edited, and what has been kept of it. -/
structure Held (β σ : Type) where
  /-- What is edited. -/
  current : β
  /-- What has been kept, in the order in which it was. -/
  kept : List σ

/-- What is edited and what has been kept, seen through a view each. -/
def Held.map {β γ σ τ : Type} (view : β → γ) (look : σ → τ) (h : Held β σ) : Held γ τ :=
  ⟨view h.current, h.kept.map look⟩

/-- An operation on what is edited, which leaves alone what has been kept. -/
def Held.onCurrent {β σ : Type} (p : Program β Unit) : Program (Held β σ) Unit :=
  fun h => seen (Held.mk · h.kept) (p h.current)

/-- The operations that calls ask for. -/
structure Operations (β σ : Type) where
  /-- Puts a text in at a position. -/
  insert : Int → Text → Program β Unit
  /-- Takes a range out. -/
  remove : Int → Int → Program β Unit
  /-- Puts a text in the place of everything. -/
  setText : Text → Program β Unit
  /-- What is kept of what is there. -/
  snapshot : β → σ
  /-- Puts what has been kept in the place of what is there. -/
  restore : σ → Program β Unit

/-- The operations of buffers. -/
def chunked : Operations Buffer Snapshot where
  insert i s := assign (·.insert i s)
  remove start stop := assign (·.remove start stop)
  setText t := set (ofText t)
  snapshot := snapshot
  restore s := modify (·.restore s)

/-- The operations of one plain text: splices, and copies of the text. -/
def plain : Operations Text Text where
  insert i s := assign fun t =>
    if 0 ≤ i ∧ i ≤ t.length then .ok (t.take i.toNat ++ s ++ t.drop i.toNat)
    else .error (.insertion i t.length)
  remove start stop := assign fun t =>
    if 0 ≤ start ∧ start ≤ stop ∧ stop ≤ t.length then
      .ok (t.take start.toNat ++ t.drop stop.toNat)
    else .error (.removal start stop t.length)
  setText t := set t
  snapshot t := t
  restore s := set s

namespace Operations

variable {β σ : Type}

/-- What a call does. -/
def step (o : Operations β σ) : Call → Program (Held β σ) Unit
  | .insert i s => Held.onCurrent (o.insert i s)
  | .remove start stop => Held.onCurrent (o.remove start stop)
  | .setText t => Held.onCurrent (o.setText t)
  | .snapshot => modify fun h => { h with kept := h.kept ++ [o.snapshot h.current] }
  | .restore k => do
    match (← get).kept[k]? with
    | some s => Held.onCurrent (o.restore s)
    | none => return

/-- What is there after a call, whether it has failed or not. -/
def next (o : Operations β σ) (h : Held β σ) (c : Call) : Held β σ := left (o.step c h)

/-- What is there after a run of calls. -/
def run (o : Operations β σ) (calls : List Call) (h : Held β σ) : Held β σ := calls.foldl o.next h

variable (o : Operations β σ) (h : Held β σ)

theorem step_snapshot :
  o.step .snapshot h = .ok () { h with kept := h.kept ++ [o.snapshot h.current] }
  := rfl

theorem step_restore (k : Nat) :
  o.step (.restore k) h = match h.kept[k]? with
    | some s => seen (Held.mk · h.kept) (o.restore s h.current)
    | none => .ok () h
  := by
  have hstep : o.step (.restore k) h = (match h.kept[k]? with
      | some s => Held.onCurrent (o.restore s)
      | none => pure ()) h := rfl
  rw [hstep]
  cases h.kept[k]? <;> rfl

theorem step_restore_of_some {k : Nat} {s : σ} (hk : h.kept[k]? = some s) :
  o.step (.restore k) h = seen (Held.mk · h.kept) (o.restore s h.current)
  := by
  rw [step_restore, hk]

theorem step_restore_of_none {k : Nat} (hk : h.kept[k]? = none) :
  o.step (.restore k) h = .ok () h
  := by
  rw [step_restore, hk]

theorem run_append (calls calls' : List Call) :
  o.run (calls ++ calls') h = o.run calls' (o.run calls h)
  := List.foldl_append

variable {o h}

/-- Only a snapshot adds to what has been kept. -/
theorem kept_next (c : Call) :
  (o.next h c).kept = h.kept ++ if c = .snapshot then [o.snapshot h.current] else []
  := by
  have honCurrent (p : Program β Unit) : (left (Held.onCurrent p h)).kept = h.kept := by
    rw [Held.onCurrent, left_seen]
  rw [next]
  cases c with
  | insert i s => simp [step, honCurrent]
  | remove start stop => simp [step, honCurrent]
  | setText t => simp [step, honCurrent]
  | snapshot => simp [step_snapshot, left]
  | restore k =>
    cases hk : h.kept[k]? with
    | some s => simp [step_restore_of_some o h hk]
    | none => simp [step_restore_of_none o h hk, left]

/-- Calls keep what has been kept, and add one to it for each snapshot. -/
theorem kept_run (calls : List Call) :
  h.kept <+: (o.run calls h).kept ∧
    (o.run calls h).kept.length = h.kept.length + calls.count .snapshot
  := by
  induction calls generalizing h with
  | nil => exact ⟨List.prefix_refl _, rfl⟩
  | cons c calls ih =>
    obtain ⟨hbefore, hlength⟩ := ih (h := o.next h c)
    rw [kept_next] at hbefore hlength
    constructor
    · apply (List.prefix_append _ _).trans hbefore
    · rw [run, List.foldl_cons, ← run, hlength, List.length_append, Nat.add_assoc]
      apply congrArg (h.kept.length + ·)
      by_cases hc : c = .snapshot
      · simp [hc, Nat.add_comm]
      · simp [hc]

/-- What a snapshot has kept stays the one of its number, whatever has been called since. -/
theorem getElem?_kept_run (before between : List Call) (h₀ : h.kept = []) :
  (o.run (before ++ .snapshot :: between) h).kept[before.count .snapshot]? =
    some (o.snapshot (o.run before h).current)
  := by
  have hlength := (kept_run (o := o) (h := h) before).2
  have hsplit : o.run (before ++ .snapshot :: between) h =
      o.run between (o.next (o.run before h) .snapshot) :=
    run_append o h before (.snapshot :: between)
  -- The snapshot stands behind those taken before, and later calls only add to it.
  obtain ⟨later, hlater⟩ := (kept_run (o := o) (h := o.next (o.run before h) .snapshot) between).1
  rw [kept_next, if_pos rfl] at hlater
  rw [hsplit, ← hlater, List.append_assoc, List.getElem?_append_right (by simp [hlength, h₀])]
  simp [hlength, h₀]

end Operations

/-- Each operation of one kind does to what is viewed what that of another kind does, and keeps an
invariant. -/
structure Refines {β γ σ τ : Type} (o : Operations β σ) (o' : Operations γ τ) (inv : β → Prop)
    (view : β → γ) (look : σ → τ) : Prop where
  /-- Insertions do. -/
  insert : ∀ i s, Mirrors inv view (o.insert i s) (o'.insert i s)
  /-- Removals do. -/
  remove : ∀ start stop, Mirrors inv view (o.remove start stop) (o'.remove start stop)
  /-- Whole texts do. -/
  setText : ∀ t, Mirrors inv view (o.setText t) (o'.setText t)
  /-- What is kept is what the other kind keeps. -/
  snapshot : ∀ b, inv b → look (o.snapshot b) = o'.snapshot (view b)
  /-- What is brought back is. -/
  restore : ∀ s, Mirrors inv view (o.restore s) (o'.restore (look s))

namespace Refines

variable {β γ σ τ : Type} {o : Operations β σ} {o' : Operations γ τ} {inv : β → Prop} {view : β → γ}
  {look : σ → τ}

theorem onCurrent {p : Program β Unit} {q : Program γ Unit} (hp : Mirrors inv view p q)
    (h : Held β σ) (hh : inv h.current) :
  seen (Held.map view look) (seen (Held.mk · h.kept) (p h.current)) =
      seen (Held.mk · (h.kept.map look)) (q (view h.current)) ∧
    inv (left (seen (Held.mk · h.kept) (p h.current))).current
  := by
  obtain ⟨hseen, hinv⟩ := hp h.current hh
  rw [← hseen, seen_seen, seen_seen, left_seen]
  exact ⟨rfl, hinv⟩

/-- A call does to what is viewed what it does with the other operations. -/
theorem step (hr : Refines o o' inv view look) (c : Call) :
  Mirrors (fun h => inv h.current) (Held.map view look) (o.step c) (o'.step c)
  := by
  intro h hh
  cases c with
  | insert i s => apply onCurrent (hr.insert i s) h hh
  | remove start stop => apply onCurrent (hr.remove start stop) h hh
  | setText t => apply onCurrent (hr.setText t) h hh
  | snapshot =>
    refine ⟨?_, hh⟩
    rw [Operations.step_snapshot, Operations.step_snapshot]
    simp [seen, Held.map, hr.snapshot _ hh]
  | restore k =>
    cases hk : h.kept[k]? with
    | some s =>
      have hk' : (h.map view look).kept[k]? = some (look s) := by simp [Held.map, hk]
      rw [Operations.step_restore_of_some o h hk, Operations.step_restore_of_some o' _ hk']
      apply onCurrent (hr.restore s) h hh
    | none =>
      have hk' : (h.map view look).kept[k]? = none := by simp [Held.map, hk]
      rw [Operations.step_restore_of_none o h hk, Operations.step_restore_of_none o' _ hk']
      exact ⟨rfl, hh⟩

theorem next (hr : Refines o o' inv view look) (h : Held β σ) (hh : inv h.current) (c : Call) :
  (o.next h c).map view look = o'.next (h.map view look) c ∧ inv (o.next h c).current
  := by
  obtain ⟨hseen, hinv⟩ := hr.step c h hh
  refine ⟨?_, hinv⟩
  rw [Operations.next, Operations.next, ← hseen, left_seen]

/-- A run of calls does to what is viewed what it does with the other operations. -/
theorem run (hr : Refines o o' inv view look) (calls : List Call) (h : Held β σ)
    (hh : inv h.current) :
  (o.run calls h).map view look = o'.run calls (h.map view look) ∧ inv (o.run calls h).current
  := by
  induction calls generalizing h with
  | nil => exact ⟨rfl, hh⟩
  | cons c calls ih =>
    obtain ⟨hnext, hinv⟩ := hr.next h hh c
    rw [Operations.run, Operations.run, List.foldl_cons, List.foldl_cons, ← hnext]
    apply ih _ hinv

/-- What is viewed through one view can be viewed through another. -/
theorem trans {δ υ : Type} {o'' : Operations δ υ} {view' : γ → δ} {look' : τ → υ}
    (hr : Refines o o' inv view look) (hr' : Refines o' o'' (fun _ => True) view' look') :
  Refines o o'' inv (view' ∘ view) (look' ∘ look)
  where
  insert i s := (hr.insert i s).trans (hr'.insert i s)
  remove start stop := (hr.remove start stop).trans (hr'.remove start stop)
  setText t := (hr.setText t).trans (hr'.setText t)
  snapshot b hb := (congrArg look' (hr.snapshot b hb)).trans (hr'.snapshot (view b) trivial)
  restore s := (hr.restore s).trans (hr'.restore (look s))

end Refines

/-- What makes something else of what is there mirrors what makes the view of that. -/
theorem mirrors_assign {β γ : Type} {view : β → γ} {f : β → Except BufferError β}
    {g : γ → Except BufferError γ} (h : ∀ b, (f b).map view = g (view b)) :
  Mirrors (fun _ => True) view (assign f) (assign g)
  := by
  intro b _
  refine ⟨?_, trivial⟩
  rw [assign_apply, assign_apply, ← h]
  cases f b <;> rfl

section View

variable (b : Buffer)

theorem map_text_insert (i : Int) (s : Text) :
  (b.insert i s).map text =
    if 0 ≤ i ∧ i ≤ b.text.length then .ok (b.text.take i.toNat ++ s ++ b.text.drop i.toNat)
    else .error (.insertion i b.text.length)
  := by
  by_cases hi : 0 ≤ i ∧ i ≤ b.length
  · obtain ⟨n, rfl⟩ := Int.eq_ofNat_of_zero_le hi.1
    obtain ⟨b', hb', htext⟩ := insert_eq_ok b (Int.ofNat_le.mp hi.2) s
    rw [hb', ← length, if_pos hi, Int.toNat_natCast, ← htext]
    rfl
  · rw [insert, if_neg hi, ← length, if_neg hi]
    rfl

theorem map_text_remove (start stop : Int) :
  (b.remove start stop).map text =
    if 0 ≤ start ∧ start ≤ stop ∧ stop ≤ b.text.length then
      .ok (b.text.take start.toNat ++ b.text.drop stop.toNat)
    else .error (.removal start stop b.text.length)
  := by
  by_cases h : 0 ≤ start ∧ start ≤ stop ∧ stop ≤ b.length
  · obtain ⟨m, rfl⟩ := Int.eq_ofNat_of_zero_le h.1
    obtain ⟨n, rfl⟩ := Int.eq_ofNat_of_zero_le (Int.le_trans h.1 h.2.1)
    obtain ⟨b', hb', htext⟩ := remove_eq_ok b (Int.ofNat_le.mp h.2.1) (Int.ofNat_le.mp h.2.2)
    rw [hb', ← length, if_pos h, Int.toNat_natCast, Int.toNat_natCast, ← htext]
    rfl
  · rw [remove, if_neg h, ← length, if_neg h]
    rfl

/-- The operations of buffers do to the text what splices do. -/
theorem chunked_refines_plain :
  Refines chunked plain (fun _ => True) text List.flatten
  where
  insert i s := mirrors_assign fun b => map_text_insert b i s
  remove start stop := mirrors_assign fun b => map_text_remove b start stop
  setText t := fun _ _ => ⟨congrArg (EStateM.Result.ok ()) (text_ofText t), trivial⟩
  snapshot _ _ := rfl
  restore _ := fun _ _ => ⟨rfl, trivial⟩

/-- A run of calls makes of the buffer of a text, seen as texts, what the splices make of the
text. -/
theorem map_text_run (t : Text) (calls : List Call) :
  (chunked.run calls ⟨ofText t, []⟩).map text List.flatten = plain.run calls ⟨t, []⟩
  := by
  rw [(chunked_refines_plain.run calls ⟨ofText t, []⟩ trivial).1]
  apply congrArg (fun t => plain.run calls ⟨t, []⟩) (text_ofText t)

end View

end Tunescript.Buffer
