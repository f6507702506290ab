import DeferredCount.Proofs.Running
import Mathlib.Data.Set.Finite.Basic

/-!
# What increments reclaim

An increment that does not collect cycles frees an object when its count drops to zero. So whatever
is left after such increments has a count, and the references that make up the count lead back to a
root, to a permanent object, or around a cycle. In the base flavor more is reclaimed: a new object
is freed unless the increment counts a reference to it, and the slots of new objects are only
counted when the objects themselves are. So new objects are freed with all cycles among them.

Results:
1. `Ready.creates`: a turn brings at most one object.
2. `Exact.supported`: counts that are not zero lead back to a root or to a cycle.
3. `Incremented.newborn_freed`: a fresh object that nothing leads to is freed.
4. `increments_reclaim_acyclic`: what is left after every increment of a run.
-/

namespace DeferredCount

/-! ## References between objects -/

/-- The object `x` refers to `o`. -/
def Heap.Refers (h : Heap) (x o : Ref) : Prop := x ∈ h.known ∧ o ∈ (h.view x).referents

/-- The object `o` has support: it can be reached from a root, from a permanent object, or from a
cycle of references. -/
def Heap.Supported (h : Heap) (roots : List Ref) (o : Ref) : Prop :=
  ∃ x ∈ h.known, Relation.ReflTransGen h.Refers x o ∧
    (x ∈ roots ∨ x ∈ h.permanent.objects ∨ Relation.TransGen h.Refers x x)

theorem Heap.known_finite (h : Heap) : h.known.Finite := by
  refine (h.counted ∪ h.permanents).finite_toSet.subset fun x hx => ?_
  exact Finset.mem_coe.2 (Heap.mem_union_permanents.2 hx)

namespace Exact

variable {h : Heap} {roots : List Ref} {o : Ref}

/-- An object with a count is a root, or another object refers to it. -/
theorem root_or_referrer (x : Exact h roots) (ho : o ∈ h.counted) (pos : h.count o ≠ 0)
    (unstuck : h.count o ≠ Header.stuck) : o ∈ roots ∨ ∃ y, h.Refers y o := by
  by_contra none
  rw [not_or, not_exists] at none
  have count := x.count o ho unstuck
  have noRoot : roots.count o = 0 := List.count_eq_zero.2 none.1
  have noSlot : h.references (h.counted ∪ h.permanents) o = 0 := by
    refine Finset.sum_eq_zero fun y hy => ?_
    by_contra some
    have slot := ObjectView.references_pos.1 (Nat.pos_of_ne_zero some)
    exact none.2 y ⟨Heap.mem_union_permanents.1 hy, ObjectView.mem_referents.2 slot⟩
  rw [noRoot, noSlot] at count
  exact pos count

/-- If no count is zero or stuck, every counted object has support. Otherwise one could go back from
referrer to referrer for ever, in a finite heap and without a cycle. -/
theorem supported (x : Exact h roots) (pos : ∀ o ∈ h.counted, h.count o ≠ 0)
    (unstuck : ∀ o ∈ h.counted, h.count o ≠ Header.stuck) (ho : o ∈ h.known) :
    h.Supported roots o := by
  by_contra unsupported
  let Source := { y // y ∈ h.known ∧ Relation.ReflTransGen h.Refers y o }
  have : Finite Source := (h.known_finite.subset fun y hy => hy.1).to_subtype
  let before (y z : Source) : Prop := Relation.TransGen h.Refers y z
  have : IsTrans Source before := ⟨fun _ _ _ => Relation.TransGen.trans⟩
  have : Std.Irrefl before :=
    ⟨fun y cycle => unsupported ⟨y, y.2.1, y.2.2, .inr (.inr cycle)⟩⟩
  have wf : WellFounded before := Finite.wellFounded_of_trans_of_irrefl before
  obtain ⟨⟨y, hy, path⟩, -, first⟩ := wf.has_min Set.univ ⟨⟨o, ho, .refl⟩, trivial⟩
  rcases hy with counted | permanent
  · rcases x.root_or_referrer counted (pos y counted) (unstuck y counted) with root | ⟨z, refers⟩
    · exact unsupported ⟨y, .inl counted, path, .inl root⟩
    · exact first ⟨z, refers.1, .head refers path⟩ trivial (.single refers)
  · exact unsupported ⟨y, .inr permanent, path, .inr (.inl permanent)⟩

end Exact

/-! ## New objects -/

/-- A turn brings at most one object. -/
theorem Ready.creates {settings : Settings} {h h' : Heap} {ms ms' : List Mutator} {e : Entries}
    (r : Ready settings h ms e) (t : Turn h ms h' ms') :
    h'.known = h.known ∨ ∃ o counted slots array as, Created h o
      (.ofNew slots array (settings.flavor.logsNew counted)) counted as h' := by
  cases t with
  | bind run =>
    obtain ⟨-, -, -, rest⟩ := Mutator.of_bind run
    left
    rw [rest]
    rfl
  | destroy run =>
    obtain ⟨-, rest⟩ := Mutator.destroy_adds run
    left
    rw [rest]
    rfl
  | flushModified run =>
    obtain ⟨-, -, rest⟩ := Mutator.flushModified_adds run
    left
    rw [rest]
    rfl
  | flushDecrements run =>
    obtain ⟨-, -, rest⟩ := Mutator.flushDecrements_adds run
    left
    rw [rest]
    rfl
  | allocate run =>
    rcases Mutator.of_newObject r.stocked_cons r.ledger.wellFormed run with
      ⟨-, -, u⟩ | ⟨o, counted, -, created, -⟩
    · left
      rw [Heap.known, Heap.known, u.counted, u.permanent]
    · right
      rw [r.flavor_eq] at created
      exact ⟨o, counted, _, _, _, created⟩
  | write hx hi ht run =>
    obtain ⟨_, _, _, run', acted, -⟩ := Mutator.write_eq r.barrier_eq r.ledger hx hi ht
    cases run'.symm.trans run
    exact .inl acted.known_eq
  | compareAndSwap hx hi ht run =>
    obtain ⟨_, _, _, run', acted, -⟩ :=
      Mutator.compareAndSwap_eq r.barrier_eq r.ledger hx hi _ ht
    cases run'.symm.trans run
    exact .inl acted.known_eq
  | copy hy source hx array target run copied =>
    obtain ⟨_, _, _, _, run', copied', acted, -⟩ :=
      Mutator.bulkCopy_eq r.barrier_eq r.ledger hy source hx array target
    cases run'.symm.trans run
    cases copied'.symm.trans copied
    exact .inl acted.known_eq
  | setRoots => exact .inl rfl
  | setExhaustion => exact .inl rfl
  | shuffle => exact .inl rfl

section

variable {settings : Settings} {h h' : Heap} {ms ms' : List Mutator} {e : Entries}

/-- A new object has a count of one, and turns change no other count. -/
theorem Ready.turn_positive (r : Ready settings h ms e) (t : Turn h ms h' ms')
    (pos : ∀ o ∈ h.counted, h.count o ≠ 0) : ∀ o ∈ h'.counted, h'.count o ≠ 0 := by
  intro o ho
  obtain ⟨d, -, elapsed⟩ := r.turn t
  by_cases old : o ∈ h.known
  · rw [Heap.count, (elapsed.later o old).count]
    exact pos o ((elapsed.counted o old).1 ho)
  · rcases r.creates t with same | ⟨x, counted, slots, array, as, created⟩
    · exact absurd (same ▸ .inl ho) old
    · have known : o ∈ insert x h.known := created.known_eq ▸ .inl ho
      obtain rfl := known.resolve_right old
      rw [Heap.count, created.self]
      exact Nat.one_ne_zero

/-- If no count is zero, turns leave none that is. -/
theorem Ready.turns_positive (r : Ready settings h ms e) (t : Turns h ms h' ms')
    (pos : ∀ o ∈ h.counted, h.count o ≠ 0) : ∀ o ∈ h'.counted, h'.count o ≠ 0 := by
  induction t with
  | none => exact pos
  | turn turns last ih =>
    obtain ⟨d, r₁, -⟩ := r.turns turns
    exact r₁.turn_positive last ih

/-- A new object is fresh if it is counted and the flavor is base. -/
theorem Ready.turn_fresh_iff (r : Ready settings h ms e) (t : Turn h ms h' ms') {x : Ref}
    (hx : x ∈ h'.known) (new : x ∉ h.known) :
    (h'.view x).header.fresh = true ↔ settings.flavor = .base ∧ x ∈ h'.counted := by
  rcases r.creates t with same | ⟨o, counted, slots, array, as, created⟩
  · exact absurd (same ▸ hx) new
  · obtain rfl : x = o := (created.known_eq ▸ hx : x ∈ insert o h.known).resolve_right new
    have uncounted : x ∉ h.counted := fun member => new (.inl member)
    rw [created.self, created.counted]
    cases counted <;> cases settings.flavor <;>
      simp [ObjectView.ofNew, Header.ofNew, Flavor.logsNew, uncounted]

/-- It is so until the next collection. -/
theorem Ready.turns_fresh_iff (r : Ready settings h ms e) (t : Turns h ms h' ms') {x : Ref}
    (hx : x ∈ h'.known) (new : x ∉ h.known) :
    (h'.view x).header.fresh = true ↔ settings.flavor = .base ∧ x ∈ h'.counted := by
  induction t with
  | none => exact absurd hx new
  | @turn h₁ h' ms₁ ms' turns last ih =>
    obtain ⟨d₁, r₁, -⟩ := r.turns turns
    obtain ⟨d₂, -, elapsed⟩ := r₁.turn last
    by_cases old : x ∈ h₁.known
    · rw [(elapsed.later x old).fresh, elapsed.counted x old]
      exact ih old
    · exact r₁.turn_fresh_iff last hx old

/-- In the base flavor a new counted object is fresh until the next collection. -/
theorem Ready.turns_fresh (r : Ready settings h ms e) (t : Turns h ms h' ms')
    (base : settings.flavor = .base) :
    ∀ x ∈ h'.counted, x ∉ h.known → (h'.view x).header.fresh = true :=
  fun _ hx new => (r.turns_fresh_iff t (.inl hx) new).2 ⟨base, hx⟩

end

/-! ## Increments -/

/-- What covers a reference to an object. -/
theorem Heap.covered_pos {h : Heap} {objs : List Ref} {fields : List Ticket} {o : Ref} :
    0 < h.covered objs fields o ↔
      (∃ x ∈ objs, o ∈ (h.view x).referents) ∨ ∃ k ∈ fields, o ∈ k.referents h := by
  have slots : ∀ x, 0 < (h.view x).references o ↔ o ∈ (h.view x).referents := fun x => by
    rw [ObjectView.references_pos, ObjectView.mem_referents]
  have tickets : ∀ k : Ticket, 0 < k.references h o ↔ o ∈ k.referents h := fun k => by
    rw [← Ticket.count_referents, List.count_pos_iff]
  simp only [covered, Nat.add_pos_iff_pos_or_pos, List.sum_pos_iff_exists_pos_nat, List.mem_map,
    exists_exists_and_eq_and, slots, tickets]

/-- What asks for an object to be scanned. -/
theorem Heap.gains_pos {h : Heap} {roots objs : List Ref} {fields : List Ticket} {S : Finset Ref}
    {o : Ref} : 0 < h.gains roots objs fields S o ↔ o ∈ roots ∨
      ((∃ x ∈ objs, o ∈ (h.view x).referents) ∨ ∃ k ∈ fields, o ∈ k.referents h) ∨
      ∃ x ∈ S, o ∈ (h.view x).referents := by
  have slots : ∀ x, 0 < (h.view x).references o ↔ o ∈ (h.view x).referents := fun x => by
    rw [ObjectView.references_pos, ObjectView.mem_referents]
  simp only [gains, Nat.add_pos_iff_pos_or_pos, List.count_pos_iff, covered_pos,
    Finset.sum_pos_iff, slots, or_assoc]

namespace Incremented

variable {h k h' : Heap} {e : Entries} {N F : Finset Ref} {o : Ref}

/-- The objects of the scanned heap. -/
theorem known_eq (i : Incremented h e N k F h') : k.known = h.known := by
  rw [Heap.known, Heap.known, i.counted, i.permanent]

/-- A count that is stuck after counting stays so, since its object is not freed. -/
theorem mem_unstuck (i : Incremented h e N k F h')
    (unstuck : ∀ o ∈ h'.counted, h'.count o ≠ Header.stuck) : o ∈ k.unstuck ↔ o ∈ h.counted := by
  have reclaimed := i.reclaimed
  rw [Heap.mem_unstuck, i.counted]
  refine and_iff_left_of_imp fun ho stuck => ?_
  have left : o ∉ F := fun freed =>
    (Heap.mem_unstuck.1 (reclaimed.least.1.unstuck freed)).2 stuck
  have counted : o ∈ h'.counted := by
    rw [reclaimed.counted, Finset.mem_sdiff, i.counted]
    exact ⟨ho, left⟩
  exact unstuck o counted (reclaimed.stuck o counted stuck)

/-- If no count is zero, counting leaves none that is. -/
theorem counted_positive (i : Incremented h e N k F h') (pos : ∀ o ∈ h.counted, h.count o ≠ 0)
    (ho : o ∈ h.counted) : k.count o ≠ 0 := by
  have some := pos o ho
  have grown := (i.view o (.inl ho)).count
  simp only [Heap.count, Header.stuck] at some grown ⊢
  omega

/-- No count of what is left is zero. -/
theorem positive (i : Incremented h e N k F h') (pos : ∀ o ∈ h.counted, h.count o ≠ 0) :
    ∀ o ∈ h'.counted, h'.count o ≠ 0 := by
  intro o ho
  refine i.reclaimed.positive o ho (i.counted_positive pos ?_)
  rw [i.reclaimed.counted, i.counted] at ho
  exact (Finset.mem_sdiff.1 ho).1

/-- A fresh object is freed if it does not belong to a set of objects that are closed under
references and hold all roots and all that was logged. -/
theorem newborn_freed (i : Incremented h e N k F h') (l : Ledger h e) {R : Ref → Prop}
    (roots : ∀ x ∈ h.client.scanRoots.state, R x) (objects : ∀ x ∈ e.objects, R x)
    (fields : ∀ t ∈ e.fields, R t.object)
    (slots : ∀ x ∈ h.known, R x → ∀ o ∈ (h.view x).referents, R o) (ho : o ∈ h.counted)
    (fresh : (h.view o).header.fresh = true) (outside : ¬ R o) : o ∉ h'.counted := by
  classical
  -- what was scanned lies in the set, since the part of it that does is closed
  have closes : Closes h h.client.scanRoots.state e.objects e.fields (N.filter R) := {
    fresh := fun x hx => i.scanned.1.fresh x (Finset.mem_filter.1 hx).1
    closed := fun x hx f pos => by
      have reach : R x ∧ 0 < h.gains h.client.scanRoots.state e.objects e.fields N x := by
        rw [Heap.gains_pos] at pos ⊢
        rcases pos with root | (⟨y, hy, slot⟩ | ⟨t, ht, slot⟩) | ⟨y, hy, slot⟩
        · exact ⟨roots x root, .inl root⟩
        · exact ⟨slots y (l.objects_known y hy) (objects y hy) x slot,
            .inr (.inl (.inl ⟨y, hy, slot⟩))⟩
        · have whole := Ticket.mem_referents slot
          exact ⟨slots _ (l.fields_known t ht) (fields t ht) x whole,
            .inr (.inl (.inr ⟨t, ht, slot⟩))⟩
        · obtain ⟨member, inside⟩ := Finset.mem_filter.1 hy
          have known := (i.scanned.1.fresh y member).1
          exact ⟨slots y (.inl known) inside x slot, .inr (.inr ⟨y, member, slot⟩)⟩
      exact Finset.mem_filter.2 ⟨i.scanned.1.closed x hx f reach.2, reach.1⟩ }
  have unscanned : o ∉ N := fun member =>
    outside (Finset.mem_filter.1 (i.scanned.2 closes member)).2
  have still : (k.view o).header.fresh = true := (i.view o (.inl ho)).fresh.2 ⟨fresh, unscanned⟩
  have freed := i.tallied.fresh_mem i.reclaimed.least.1 (i.counted ▸ ho) still
  rw [i.reclaimed.counted, Finset.mem_sdiff]
  exact fun left => left.2 freed

end Incremented

/-! ## Runs without cycle collections -/

/-- What an instance can come to if its collections only work off counts: each of them was asked
for as an increment, and none was due to collect cycles. -/
inductive PlainRun (settings : Settings) : Heap → List Mutator → Prop
  | start : PlainRun settings (.ofSettings settings) []
  | turn {h h' : Heap} {ms ms' : List Mutator} :
      PlainRun settings h ms → Turn h ms h' ms' → PlainRun settings h' ms'
  | increment {h h' : Heap} {ms ms' : List Mutator} :
      PlainRun settings h ms → h.collectsCycles .increment = false →
      Collects .increment ms h ms' h' → PlainRun settings h' ms'

namespace PlainRun

variable {settings : Settings} {h h' : Heap} {ms ms' : List Mutator}

theorem run (p : PlainRun settings h ms) : Run settings h ms := by
  induction p with
  | start => exact .start
  | turn _ t ih => exact ih.turn t
  | increment _ _ done ih => exact ih.collect done

theorem turns (p : PlainRun settings h ms) (t : Turns h ms h' ms') : PlainRun settings h' ms' := by
  induction t with
  | none => exact p
  | turn _ last ih => exact ih.turn last

/-- No count is ever zero. -/
theorem positive (p : PlainRun settings h ms) : ∀ o ∈ h.counted, h.count o ≠ 0 := by
  induction p with
  | start =>
    intro o ho
    rw [Heap.counted_ofSettings] at ho
    exact absurd ho (Finset.notMem_empty o)
  | turn before t ih =>
    obtain ⟨e, r⟩ := before.run.ready
    exact r.turn_positive t ih
  | increment before plain done ih =>
    obtain ⟨e, r⟩ := before.run.ready
    obtain ⟨N, k, F, i⟩ := r.incremented done plain
    exact i.positive ih

end PlainRun

/-- After every increment of a run without cycle collections no counted object has a count of zero,
so each has support unless a count is stuck. In the base flavor an object that is new since some
point after the last increment is gone unless it can be reached from a root, from a permanent
object, or from an object that was there at that point. -/
theorem increments_reclaim_acyclic {settings : Settings} {h₀ h h' : Heap}
    {ms₀ ms ms' : List Mutator} (run : PlainRun settings h₀ ms₀) (turns : Turns h₀ ms₀ h ms)
    (plain : h.collectsCycles .increment = false) (done : Collects .increment ms h ms' h') :
    (∀ o ∈ h'.counted, h'.count o ≠ 0) ∧
      ((∀ o ∈ h'.counted, h'.count o ≠ Header.stuck) →
        ∀ o ∈ h'.counted, h'.Supported h.client.scanRoots.state o) ∧
      (settings.flavor = .base → ∀ o ∈ h.counted, o ∉ h₀.known →
        (∀ x, x ∈ h.client.scanRoots.state ∨ x ∈ h.permanent.objects ∨ x ∈ h₀.known →
          ¬ Relation.ReflTransGen h.Refers x o) → o ∉ h'.known) := by
  obtain ⟨e₀, r₀⟩ := run.run.ready
  obtain ⟨d, r, elapsed⟩ := r₀.turns turns
  obtain ⟨c, -⟩ := r.collected done
  obtain ⟨N, k, F, i⟩ := r.incremented done plain
  have positive := ((run.turns turns).increment plain done).positive
  refine ⟨positive, fun unstuck o ho => c.exact.supported positive unstuck (.inl ho), ?_⟩
  intro base o ho new unreached
  -- what can be reached is closed under references, and what was logged is part of it
  let Reached (y : Ref) : Prop := ∃ x, (x ∈ h.client.scanRoots.state ∨
    x ∈ h.permanent.objects ∨ x ∈ h₀.known) ∧ Relation.ReflTransGen h.Refers x y
  have objects : ∀ x ∈ (e₀ ++ d).objects, Reached x := fun x hx => by
    by_cases old : x ∈ h₀.known
    · exact ⟨x, .inr (.inr old), .refl⟩
    · rcases r.ledger.objects_known x hx with counted | permanent
      · have fresh := r₀.turns_fresh turns base x counted old
        exact absurd hx ((r.ledger.agrees x (.inl counted)).of_fresh fresh).1
      · exact ⟨x, .inr (.inl permanent), .refl⟩
  have fields : ∀ t ∈ (e₀ ++ d).fields, Reached t.object := fun t ht =>
    ⟨t.object, .inr (.inr (elapsed.field_old ht)), .refl⟩
  have slots : ∀ x ∈ h.known, Reached x → ∀ o ∈ (h.view x).referents, Reached o := by
    rintro x hx ⟨y, source, path⟩ z slot
    exact ⟨y, source, path.tail ⟨hx, slot⟩⟩
  have outside : ¬ Reached o := fun ⟨x, source, path⟩ => unreached x source path
  have gone := i.newborn_freed r.ledger (fun x root => ⟨x, .inl root, .refl⟩) objects fields slots
    ho (r₀.turns_fresh turns base o ho new) outside
  rintro (counted | permanent)
  · exact gone counted
  · exact r.ledger.wellFormed.permanent_ne (c.permanent ▸ permanent) ho rfl

/-- The second object that a new instance allocates, if both have one slot. -/
def Ref.twin : Ref := ⟨0x10000840⟩

/-- A new instance gets a mutator. That allocates two objects, and stores each of them in the other.
There are no roots, and an increment follows. Do the objects show that? -/
def knottedTwins : Bool :=
  Mutator.bind.holds (fun m => (m.newObject 1 false .default).holds fun (_, m) =>
    (m.newObject 1 false .default).holds fun (_, m) h =>
      decide (Ref.parent ∈ h.known ∧ Ref.twin ∈ h.known ∧
        0 < (h.view .parent).targets.length ∧ (h.view .parent).field 0 = .scalar 0) &&
      (m.write .parent (Ref.parent.slotAddr 0) (some .twin) (.scalar 0)).holds (fun m h =>
        decide (Ref.parent ∈ h.known ∧ Ref.twin ∈ h.known ∧
          0 < (h.view .twin).targets.length ∧ (h.view .twin).field 0 = .scalar 0) &&
        (m.write .twin (Ref.twin.slotAddr 0) (some .parent) (.scalar 0)).holds (fun m h =>
          decide ((Ref.parent ∈ h.counted ∧ Ref.twin ∈ h.counted ∧
            (h.view .parent).referents = [.twin] ∧ (h.view .twin).referents = [.parent]) ∧
            h.client.scanRoots.state = [] ∧ h.permanent.objects = #[] ∧
            h.collectsCycles .increment = false) &&
          (HeapM.collect .increment [m]).holds (fun _ _ => true) h) h) h)
    (.ofSettings {})

/-- Two new objects refer to each other, and nothing else refers to them. Both are freed by the next
increment. -/
theorem increments_reclaim_twins : ∃ h ms h' ms', Turns (.ofSettings {}) [] h ms ∧
    HeapM.collect .increment ms h = .ok ms' h' ∧
    (Ref.parent ∈ h.counted ∧ Ref.twin ∈ h.counted ∧ (h.view .parent).referents = [.twin] ∧
      (h.view .twin).referents = [.parent]) ∧
    Ref.parent ∉ h'.known ∧ Ref.twin ∉ h'.known := by
  have steps : knottedTwins = true := by decide +kernel
  simp only [knottedTwins, HeapM.holds_iff, Bool.and_eq_true, decide_eq_true_eq] at steps
  obtain ⟨m, h₁, bound, ⟨_, m₁⟩, h₂, first, ⟨_, m₂⟩, h₃, second, ⟨parent, twin, slot, field⟩,
    m₃, h₄, written, ⟨parent', twin', slot', field'⟩, m₄, h, written',
    ⟨⟨parent₀, twin₀, knot⟩, roots, permanent, plain⟩, ms', h', done, -⟩ := steps
  have turn₁ : Turn (.ofSettings {}) [] h₁ [m] := .bind bound
  have turn₂ : Turn h₁ ([] ++ [m]) h₂ ([] ++ [m₁]) := .allocate first
  have turn₃ : Turn h₂ ([] ++ [m₁]) h₃ ([] ++ [m₂]) := .allocate second
  have turn₄ : Turn h₃ ([] ++ [m₂]) h₄ ([] ++ [m₃]) := .write parent slot
    (fun o eq => Option.some.inj eq ▸ twin) (field ▸ written)
  have turn₅ : Turn h₄ ([] ++ [m₃]) h ([] ++ [m₄]) := .write twin' slot'
    (fun o eq => Option.some.inj eq ▸ parent') (field' ▸ written')
  have turns : Turns (.ofSettings {}) [] h [m₄] :=
    ((((Turns.none.turn turn₁).turn turn₂).turn turn₃).turn turn₄).turn turn₅
  -- there was no object at the start, and there are neither roots nor permanent objects
  have new : ∀ x, x ∉ (Heap.ofSettings {}).known := by simp [Heap.known_ofSettings]
  have unreached : ∀ o x, x ∈ h.client.scanRoots.state ∨ x ∈ h.permanent.objects ∨
      x ∈ (Heap.ofSettings {}).known → ¬ Relation.ReflTransGen h.Refers x o := by
    rintro o x (root | old | old)
    · rw [roots] at root
      cases root
    · rw [permanent] at old
      exact absurd old (Array.not_mem_empty x)
    · exact absurd old (new x)
  have begun : PlainRun {} (.ofSettings {}) [] := .start
  obtain ⟨-, -, freed⟩ := increments_reclaim_acyclic begun turns plain (.of_collect done)
  exact ⟨h, [m₄], h', ms', turns, done, ⟨parent₀, twin₀, knot⟩,
    freed rfl _ parent₀ (new _) (unreached _), freed rfl _ twin₀ (new _) (unreached _)⟩

end DeferredCount
