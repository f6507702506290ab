import DeferredCount.Proofs.Converging
import DeferredCount.Settings.Reader

/-!
# Other settings, the same outcome

The settings say how finely stores are logged, how many entries a buffer holds, how many collectors
work, and what is counted and told of all that. Suppose that an instance goes on with other settings
after a collection. Whatever they are, it answers requests in the same way, and the next increment
leaves the same objects with the same slots and the same counts, in whichever order its crew works.
Only the flavor matters, and whether the increment collects cycles.

A cycle collection spares what logged slots hold, even if the object that was logged is garbage. So
it spares less if stores are logged more finely.

Results:
1. `increments_ignore_settings`: settings of one flavor lead to the same outcome.
2. `cycle_collections_heed_settings`: not so if the increment collects cycles.
-/

namespace DeferredCount

/-- Every field holds a value that it admits. -/
def Settings.Admitted (s : Settings) : Prop := ∀ k : Setting, k.admits (s.get k) = true

/-- The heap of an instance that goes on with other settings. Its statistics begin anew. -/
def Heap.withSettings (h : Heap) (s : Settings) : Heap :=
  { h with settings := s, stats := { enabled := s.barrierStats } }

/-- The mutator as if it were bound anew. It keeps its free memory. -/
def Mutator.rebound (s : Settings) (m : Mutator) : Mutator where
  flavor := s.flavor
  barrier := .ofSettings s
  allocators := m.allocators
  buffers := .empty s.bufferCapacity

namespace Settings.Admitted

variable {s : Settings}

theorem capacity (admitted : s.Admitted) : 0 < s.bufferCapacity :=
  of_decide_eq_true (admitted .bufferCapacity)

theorem collectors (admitted : s.Admitted) : 0 < s.collectors :=
  of_decide_eq_true (admitted .collectors)

end Settings.Admitted

/-! ## Going on with other settings -/

theorem Exact.withSettings {h : Heap} {roots : List Ref} (x : Exact h roots) (s : Settings) :
    Exact (h.withSettings s) roots where
  cleared := {
    wellFormed := x.cleared.wellFormed.congr rfl rfl rfl x.cleared.wellFormed.laid
    once := x.cleared.once
    slots_known := x.cleared.slots_known
    clean := x.cleared.clean
    permanent := x.cleared.permanent }
  stale := x.stale
  roots_known := x.roots_known
  count := x.count

/-- Mutators with empty buffers hold as much as others that hold nothing. -/
theorem Held.of_flushed {h : Heap} {ms ns : List Mutator} (held : Held h ms {})
    (flushed : ∀ n ∈ ns, n.buffers.isFlushed = true) : Held h ns {} := by
  induction ns with
  | nil =>
    obtain ⟨objects, fields, decrements⟩ := held.pools_eq_nil
    exact { held with
      objects := .of_eq (by rw [Heap.loggedObjects, objects]; rfl)
      fields := .of_eq (by rw [Heap.loggedFields, fields]; rfl)
      decrements := .of_eq (by rw [Heap.owedDecrements, decrements]; rfl) }
  | cons n ns ih =>
    have rest := ih fun m hm => flushed m (List.mem_cons_of_mem _ hm)
    exact (Held.cons_iff (flushed n List.mem_cons_self)).2 rest

/-- An instance without entries may go on with other settings. -/
theorem Ready.withSettings {settings : Settings} {h : Heap} {ms : List Mutator}
    (r : Ready settings h ms {}) (exact : Exact h h.oldRoots) (s : Settings) :
    Ready s (h.withSettings s) (ms.map (Mutator.rebound s)) {} where
  settings_eq := rfl
  outfits m hm := by
    obtain ⟨_, -, rfl⟩ := List.mem_map.1 hm
    exact ⟨rfl, rfl⟩
  ledger := (exact.withSettings s).ledger
  held := by
    refine (r.held.of_flushed fun m hm => ?_).congr rfl rfl
    obtain ⟨_, -, rfl⟩ := List.mem_map.1 hm
    rfl
  stocked := by
    rw [List.map_map]
    exact r.stocked.congr rfl rfl rfl fun _ _ => rfl
  idle := r.idle
  roots_known := r.roots_known

/-- The heap of an instance is alike whichever settings it goes on with. -/
theorem Heap.Alike.withSettings (h : Heap) (s t : Settings) :
    (h.withSettings s).Alike (h.withSettings t) where
  small := rfl
  large := rfl
  permanent := rfl
  client := rfl
  oldRoots := rfl
  progress := rfl
  view _ _ := ⟨rfl, rfl, rfl, rfl⟩

/-- Suppose that an instance goes on after a completed collection with settings of one flavor and
one interval of cycle collections. Requests are answered in the same way under all of them, and the
increment that follows leaves the same objects with the same slots and the same counts, in whichever
order its crew works, unless it collects cycles or a count is stuck. With crews that take turns both
increments complete. -/
theorem increments_ignore_settings {settings s t : Settings} {h h₀ h₁ : Heap}
    {ms ms₀ ms₁ : List Mutator} {kind : CollectionKind} {qs : List Request} {as : List Reply}
    (run : Run settings h ms) (left : Collects kind ms h ms₀ h₀)
    (admitted : s.Admitted) (admitted' : t.Admitted) (flavor : s.flavor = t.flavor)
    (interval : s.cycleInterval = t.cycleInterval) (plain : ∀ q ∈ qs, q.isCollection = false)
    (served : Serves (h₀.withSettings s) (ms₀.map (.rebound s)) qs as h₁ ms₁)
    (increment : h₁.collectsCycles .increment = false) :
    ∃ h₂ ms₂, Serves (h₀.withSettings t) (ms₀.map (.rebound t)) qs as h₂ ms₂ ∧
      (∃ k₁ ns₁ k₂ ns₂, HeapM.collect .increment ms₁ h₁ = .ok ns₁ k₁ ∧
        HeapM.collect .increment ms₂ h₂ = .ok ns₂ k₂) ∧
      ∀ k₁ ns₁ k₂ ns₂, Collects .increment ms₁ h₁ ns₁ k₁ → Collects .increment ms₂ h₂ ns₂ k₂ →
        (∀ o ∈ k₁.counted, k₁.count o ≠ Header.stuck) →
        (∀ o ∈ k₂.counted, k₂.count o ≠ Header.stuck) →
        k₂.counted = k₁.counted ∧ k₂.known = k₁.known ∧
          (∀ x ∈ k₁.known, (k₂.view x).targets = (k₁.view x).targets) ∧
          ∀ o ∈ k₁.counted, k₂.count o = k₁.count o := by
  obtain ⟨e, r⟩ := run.ready
  obtain ⟨c, r₀⟩ := r.collected left
  have exact : Exact h₀ h₀.oldRoots := c.oldRoots ▸ c.exact
  have start := r₀.withSettings exact s
  have start' := r₀.withSettings exact t
  have alike := Heap.Alike.withSettings h₀ s t
  -- the requests lead to heaps that are alike
  have l : Lockstep s t (h₀.withSettings s) (ms₀.map (.rebound s)) (h₀.withSettings t)
      (ms₀.map (.rebound t)) := {
    left := ⟨{}, start⟩
    right := ⟨{}, start'⟩
    alike
    allocators := by
      rw [List.map_map, List.map_map]
      rfl }
  obtain ⟨h₂, ms₂, served', l'⟩ := l.serves flavor admitted'.capacity plain served
  obtain ⟨d, r₁, elapsed⟩ := start.turns (served.turns plain)
  obtain ⟨d', r₂, elapsed'⟩ := start'.turns (served'.turns plain)
  rw [Entries.none_append] at r₁ r₂
  have increment' : h₂.collectsCycles .increment = false := by
    rw [Heap.collectsCycles, r₁.settings_eq] at increment
    rw [Heap.collectsCycles, r₂.settings_eq, l'.alike.progress, ← interval]
    exact increment
  -- both increments complete
  obtain ⟨ns₁, k₁, done⟩ := r₁.collect admitted.collectors admitted.capacity .increment
  obtain ⟨ns₂, k₂, done'⟩ := r₂.collect admitted'.collectors admitted'.capacity .increment
  refine ⟨h₂, ms₂, served', ⟨k₁, ns₁, k₂, ns₂, done, done'⟩, ?_⟩
  intro k₁ ns₁ k₂ ns₂ first second unstuck unstuck'
  obtain ⟨N, g, F, i₁⟩ := r₁.incremented first increment
  obtain ⟨M, f, G, i₂⟩ := r₂.incremented second increment'
  have sequel : Sequel (h₀.withSettings s) h₁ d N g F k₁ :=
    ⟨exact.withSettings s, elapsed, i₁, unstuck⟩
  have sequel' : Sequel (h₀.withSettings t) h₂ d' M f G k₂ :=
    ⟨exact.withSettings t, elapsed', i₂, unstuck'⟩
  exact sequel.converge sequel' alike l'.alike (r₁.collected first).1 (r₂.collected second).1

/-! ## A parent that leaves, and its child -/

/-- A new instance gets a mutator. That allocates the parent with two slots and the child, and
stores the child in the parent, which becomes the only root. -/
def Request.rearing : List Request :=
  [.bind, .act 0 (.allocate 2 false .default), .act 0 (.allocate 0 false .default),
    .act 0 (.write .parent 0 (some .child)), .setRoots [.parent]]

/-- The mutator clears the other slot of the parent, and there are other roots. -/
def Request.leaving (roots : List Ref) : List Request :=
  [.act 0 (.write .parent 1 none), .setRoots roots]

/-- Stores to scalar fields are logged one field at a time or not, and every so many increments one
collects cycles. -/
def Settings.logging (scalarFields : Bool) (interval : Nat) : Settings :=
  { scalarFields, cycleInterval := interval }

theorem Settings.admitted_logging (scalarFields : Bool) (interval : Nat) :
    (logging scalarFields interval).Admitted := by
  intro k
  cases k <;> rfl

/-- A new instance rears the family, and an increment follows. From there it may go on in two ways:
stores to scalar fields are logged as a whole or one field at a time, the parent leaves, and another
increment follows. Is the outcome of both as one wants it? -/
def partings (interval : Nat) (roots : List Ref) (p : (h₁ k₁ k₂ : Heap) → Bool) : Bool :=
  let s := Settings.logging false interval
  let t := Settings.logging true interval
  (Request.serveAll? (.ofSettings s) [] Request.rearing).any fun (_, h, ms) =>
    (HeapM.collect .increment ms).holds (fun ms₀ h₀ =>
      (Request.serveAll? (h₀.withSettings s) (ms₀.map (.rebound s)) (Request.leaving roots)).any
        fun (as, h₁, ms₁) =>
      (Request.serveAll? (h₀.withSettings t) (ms₀.map (.rebound t)) (Request.leaving roots)).any
        fun (as', h₂, ms₂) =>
      decide (as = as') && (HeapM.collect .increment ms₁).holds (fun _ k₁ =>
        (HeapM.collect .increment ms₂).holds (fun _ k₂ => p h₁ k₁ k₂) h₂) h₁) h

theorem of_partings {interval : Nat} {roots : List Ref} {p : (h₁ k₁ k₂ : Heap) → Bool}
    (eval : partings interval roots p = true) : ∃ h ms h₀ ms₀ as h₁ ms₁ h₂ ms₂ k₁ ns₁ k₂ ns₂,
      Run (.logging false interval) h ms ∧ HeapM.collect .increment ms h = .ok ms₀ h₀ ∧
      Serves (h₀.withSettings (.logging false interval))
        (ms₀.map (.rebound (.logging false interval))) (Request.leaving roots) as h₁ ms₁ ∧
      Serves (h₀.withSettings (.logging true interval))
        (ms₀.map (.rebound (.logging true interval))) (Request.leaving roots) as h₂ ms₂ ∧
      HeapM.collect .increment ms₁ h₁ = .ok ns₁ k₁ ∧
      HeapM.collect .increment ms₂ h₂ = .ok ns₂ k₂ ∧ p h₁ k₁ k₂ = true := by
  simp only [partings, Option.any_eq_true, HeapM.holds_iff, Bool.and_eq_true, decide_eq_true_eq,
    ← serves_iff, Prod.exists] at eval
  obtain ⟨_, h, ms, reared, ms₀, h₀, left, as, h₁, ms₁, served, _, h₂, ms₂, served', rfl, ns₁, k₁,
    done, ns₂, k₂, done', outcome⟩ := eval
  exact ⟨h, ms, h₀, ms₀, as, h₁, ms₁, h₂, ms₂, k₁, ns₁, k₂, ns₂, Run.start.serves reared, left,
    served, served', done, done', outcome⟩

/-- The child is the only root in the end. So it is spared by both increments, with the same count,
and the parent by neither. -/
theorem increments_ignore_settings_family : ∃ h ms h₀ ms₀ as h₁ ms₁ h₂ ms₂ k₁ ns₁ k₂ ns₂,
    Run (.logging false 0) h ms ∧ HeapM.collect .increment ms h = .ok ms₀ h₀ ∧
    Serves (h₀.withSettings (.logging false 0)) (ms₀.map (.rebound (.logging false 0)))
      (Request.leaving [.child]) as h₁ ms₁ ∧
    Serves (h₀.withSettings (.logging true 0)) (ms₀.map (.rebound (.logging true 0)))
      (Request.leaving [.child]) as h₂ ms₂ ∧
    HeapM.collect .increment ms₁ h₁ = .ok ns₁ k₁ ∧ HeapM.collect .increment ms₂ h₂ = .ok ns₂ k₂ ∧
    (Ref.parent ∉ k₁.known ∧ Ref.child ∈ k₁.counted ∧ k₁.count .child = 1) ∧
    (Ref.parent ∉ k₂.known ∧ Ref.child ∈ k₂.counted ∧ k₂.count .child = 1) := by
  have eval : partings 0 [.child] (fun h₁ k₁ k₂ => decide (h₁.collectsCycles .increment = false ∧
      (∀ o ∈ k₁.counted, k₁.count o ≠ Header.stuck) ∧
      (∀ o ∈ k₂.counted, k₂.count o ≠ Header.stuck) ∧
      Ref.parent ∉ k₁.known ∧ Ref.child ∈ k₁.counted ∧ k₁.count .child = 1)) = true := by
    decide +kernel
  obtain ⟨h, ms, h₀, ms₀, as, h₁, ms₁, h₂, ms₂, k₁, ns₁, k₂, ns₂, run, left, served, served', done,
    done', outcome⟩ := of_partings eval
  obtain ⟨increment, unstuck, unstuck', parent, child, count⟩ := of_decide_eq_true outcome
  have same := increments_ignore_settings run (.of_collect left)
    (Settings.admitted_logging false 0) (Settings.admitted_logging true 0) rfl rfl (by decide)
    served increment
  obtain ⟨_, _, again, -, same⟩ := same
  -- the instance did with the other settings what was evaluated
  cases (serves_iff.1 again).symm.trans (serves_iff.1 served')
  obtain ⟨counted, known, -, counts⟩ :=
    same _ _ _ _ (.of_collect done) (.of_collect done') unstuck unstuck'
  refine ⟨h, ms, h₀, ms₀, as, h₁, ms₁, h₂, ms₂, k₁, ns₁, k₂, ns₂, run, left, served, served', done,
    done', ⟨parent, child, count⟩, ?_, ?_, ?_⟩
  · rw [known]
    exact parent
  · rw [counted]
    exact child
  · rw [counts _ child, count]

/-- If every increment collects cycles, the child is spared when the parent was logged as a whole,
since its slot was logged, too. It is not spared when only the other slot was logged. -/
theorem cycle_collections_heed_settings : ∃ h ms h₀ ms₀ as h₁ ms₁ h₂ ms₂ k₁ ns₁ k₂ ns₂,
    Run (.logging false 1) h ms ∧ HeapM.collect .increment ms h = .ok ms₀ h₀ ∧
    ((Settings.logging false 1).Admitted ∧ (Settings.logging true 1).Admitted ∧
      (Settings.logging true 1).flavor = (Settings.logging false 1).flavor ∧
      (Settings.logging true 1).cycleInterval = (Settings.logging false 1).cycleInterval ∧
      ∀ q ∈ Request.leaving [], q.isCollection = false) ∧
    Serves (h₀.withSettings (.logging false 1)) (ms₀.map (.rebound (.logging false 1)))
      (Request.leaving []) as h₁ ms₁ ∧
    Serves (h₀.withSettings (.logging true 1)) (ms₀.map (.rebound (.logging true 1)))
      (Request.leaving []) as h₂ ms₂ ∧
    HeapM.collect .increment ms₁ h₁ = .ok ns₁ k₁ ∧ HeapM.collect .increment ms₂ h₂ = .ok ns₂ k₂ ∧
    (∀ o ∈ k₁.counted, k₁.count o ≠ Header.stuck) ∧
    (∀ o ∈ k₂.counted, k₂.count o ≠ Header.stuck) ∧
    Ref.child ∈ k₁.known ∧ Ref.child ∉ k₂.known := by
  have eval : partings 1 [] (fun _ k₁ k₂ => decide (
      (∀ o ∈ k₁.counted, k₁.count o ≠ Header.stuck) ∧
      (∀ o ∈ k₂.counted, k₂.count o ≠ Header.stuck) ∧
      Ref.child ∈ k₁.known ∧ Ref.child ∉ k₂.known)) = true := by
    decide +kernel
  obtain ⟨h, ms, h₀, ms₀, as, h₁, ms₁, h₂, ms₂, k₁, ns₁, k₂, ns₂, run, left, served, served', done,
    done', outcome⟩ := of_partings eval
  have admitted := Settings.admitted_logging
  exact ⟨h, ms, h₀, ms₀, as, h₁, ms₁, h₂, ms₂, k₁, ns₁, k₂, ns₂, run, left,
    ⟨admitted false 1, admitted true 1, rfl, rfl, by decide⟩, served, served', done, done',
    of_decide_eq_true outcome⟩

end DeferredCount
