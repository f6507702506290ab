import DeferredCount.Proofs.Elapsing
import DeferredCount.Proofs.Locking

/-!
# Logging keeps the books

What a mutator logs changes one bit of the memory, a log bit or a mark, and the entries that come
with it are those that the books ask for.

Results:
1. `Mutator.logObject_eq`: what logging a whole object does.
2. `Mutator.logField_eq`: what logging a field or a quantum does.
-/

namespace DeferredCount

/-- A mutator `m` acted on a heap `h` with the entries `e`: it added the entries `d`. -/
structure Acted (h : Heap) (e : Entries) (m : Mutator) (d : Entries) (m' : Mutator) (h' : Heap) :
    Prop extends Elapsed h e d h' where
  adds : m.Adds h d m' h'
  rest : h' = { h with
    memory := h'.memory, pools := h'.pools, stats := h'.stats, log := h'.log }

/-- A mutator acted and stored nothing: only log bits and marks were set. -/
structure Booked (h : Heap) (e : Entries) (m : Mutator) (d : Entries) (m' : Mutator) (h' : Heap) :
    Prop extends Acted h e m d m' h' where
  targets : ∀ x ∈ h.known, (h'.view x).targets = (h.view x).targets

namespace Acted

variable {h h₁ h' : Heap} {e d d₁ d₂ : Entries} {m m₁ m' : Mutator}

theorem known_eq (a : Acted h e m d m' h') : h'.known = h.known := by
  rw [a.rest]
  rfl

theorem settings_eq (a : Acted h e m d m' h') : h'.settings = h.settings := by rw [a.rest]

theorem trans (a₁ : Acted h e m d₁ m₁ h₁) (a₂ : Acted h₁ (e ++ d₁) m₁ d₂ m' h') :
    Acted h e m (d₁ ++ d₂) m' h' where
  toElapsed := a₁.toElapsed.trans a₂.toElapsed
  adds := a₁.adds.trans a₂.adds
  rest := by rw [a₂.rest, a₁.rest]

end Acted

namespace Booked

variable {h h₁ h' : Heap} {e d d₁ d₂ : Entries} {m m₁ m' : Mutator}

/-- Nothing has to be logged. -/
theorem none (l : Ledger h e) (core : h'.core = h.core) (pools : h'.pools = h.pools)
    (rest : h' = { h with
      memory := h'.memory, pools := h'.pools, stats := h'.stats, log := h'.log }) :
    Booked h e m {} m h' := by
  have memory : h'.memory = h.memory := by
    have := congrArg Heap.memory core
    exact this
  have view : ∀ x, h'.view x = h.view x := fun x => by rw [Heap.view, Heap.view, memory]
  exact {
    toElapsed := .of_view (l.congr core) (by rw [rest]; rfl) (by rw [rest]) view
    adds := .of_pools m pools
    rest
    targets := fun x _ => by rw [view] }

theorem trans (a₁ : Booked h e m d₁ m₁ h₁) (a₂ : Booked h₁ (e ++ d₁) m₁ d₂ m' h') :
    Booked h e m (d₁ ++ d₂) m' h' where
  toActed := a₁.toActed.trans a₂.toActed
  targets x hx := (a₂.targets x (a₁.known_eq ▸ hx)).trans (a₁.targets x hx)

/-- One object was edited, and the books are right. -/
theorem of_edited {x : Ref} {v : ObjectView} (edit : Edited x v h { h with memory := h'.memory })
    (ledger : Ledger { h with memory := h'.memory } (e ++ d)) (adds : m.Adds h d m' h')
    (rest : h' = { h with
      memory := h'.memory, pools := h'.pools, stats := h'.stats, log := h'.log })
    (later : (h.view x).Later v) (targets : v.targets = (h.view x).targets)
    (pending : ∀ o, h.covered d.objects d.fields o = d.decrements.count o) :
    Booked h e m d m' h' := by
  have same : ∀ y ∈ h.known, (h'.view y).targets = (h.view y).targets :=
    edit.forall_view (P := fun y w => w.targets = (h.view y).targets) (fun _ _ _ => rfl) targets
  exact {
    toElapsed := .of_known (ledger.congr (by rw [rest]; rfl)) (by rw [rest]; rfl) (by rw [rest])
      (edit.forall_view (P := fun y w => (h.view y).Later w) (fun y _ _ => .refl _) later)
      (fun y hy i _ => ObjectView.target_congr (same y hy) i) pending
    adds
    rest
    targets := same }

end Booked

/-! ## Logging -/

namespace Mutator

variable {h : Heap} {e : Entries} {x : Ref}

/-- Logs a whole object, unless it is logged or fresh. -/
theorem logObject_eq (m : Mutator) (l : Ledger h e) (hx : x ∈ h.known)
    (whole : h.settings.byField (h.view x) = false) :
    ∃ d m' h', m.logObject x h = .ok m' h' ∧ Booked h e m d m' h' ∧
      ((h'.view x).header.fresh = true ∨ (h'.view x).header.logged = true) := by
  have placed := l.wellFormed.placed hx
  cases required : (h.view x).header.logRequired with
  | false =>
    refine ⟨{}, m, h, ?_, .none l rfl rfl rfl, logged_or_fresh required⟩
    rw [logObject, HeapM.bind_of_ok (lock_refused placed required)]
    rfl
  | true =>
    obtain ⟨m', h', run, left⟩ := m.logObject_leaves placed required (l.agrees x hx).unlocked
    have edit : HeaderSet x { (h.view x).header with logged := true } h
        { h with memory := h'.memory } :=
      left.memory_eq ▸ .of_putHeader l.wellFormed hx _
    refine ⟨_, m', h', run, .of_edited edit (l.logObject hx edit required whole) left.adds
      (left.memory_eq ▸ left.rest) ⟨rfl, rfl, rfl, rfl, fun _ => rfl⟩ rfl
      (fun o => by simp [Heap.covered, ObjectView.count_referents]), .inr ?_⟩
    exact congrArg (fun v => v.header.logged) edit.self

/-- Logs a field or a quantum that is not marked, unless the object is logged or fresh. -/
theorem logField_eq (m : Mutator) (l : Ledger h e) {k : Ticket} (hk : k.object ∈ h.known)
    {f : Field} (index : f.index = k.first) (regular : k.Regular h.settings (h.view k.object))
    (unmarked : (h.view k.object).isMarked k.first = false) :
    ∃ d m' h', m.logField k.object f k.covered h = .ok m' h' ∧ Booked h e m d m' h' ∧
      ((h'.view k.object).header.fresh = true ∨ (h'.view k.object).header.logged = true ∨
        k ∈ d.fields) := by
  have placed := l.wellFormed.placed hk
  have seated := (regular.valid hk).seated
  cases required : (h.view k.object).header.logRequired with
  | false =>
    exact ⟨{}, m, h, logField_refused placed required m f _, .none l rfl rfl rfl,
      (logged_or_fresh required).imp_right .inl⟩
  | true =>
    obtain ⟨m', h', run, left⟩ :=
      m.logField_leaves index placed seated required (l.agrees _ hk).unlocked unmarked
    -- the header is written as it was, so that the mark is all that changed
    have header := HeaderSet.of_putHeader l.wellFormed hk (h.view k.object).header
    have edit : Edited k.object
        { h.view k.object with marks := (h.view k.object).marks.set k.first true } h
        { h with memory := h'.memory } := by
      have mark := Edited.of_putMark (header.wellFormed l.wellFormed) (header.known_eq ▸ hk)
        (i := k.first) ((Memory.length_putHeader ..).symm ▸ seated.first_lt) 1
      rw [header.self] at mark
      exact left.memory_eq ▸ Edited.trans header mark
    refine ⟨_, m', h', run, .of_edited edit (l.logField hk edit required regular unmarked)
      left.adds (left.memory_eq ▸ left.rest) ⟨rfl, rfl, rfl, rfl, id⟩ rfl
      (fun o => by simp [Heap.covered, Ticket.count_referents]),
      .inr (.inr (List.mem_cons_self (a := k) (l := [])))⟩

end Mutator

end DeferredCount
