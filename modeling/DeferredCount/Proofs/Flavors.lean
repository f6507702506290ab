import DeferredCount.Proofs.Reconfiguring
import Mathlib.Data.Finset.Max

/-!
# Two flavors, and what they leave

In the base flavor a new object is fresh, and its slots are only counted when somebody asks for it.
In the generational flavor it is logged, and its slots are counted whatever becomes of it.

Suppose that an instance goes on in either flavor. Requests are answered in the same way, so both
have the same objects with the same slots. The increment that follows scans no less in the
generational flavor, and frees no less in the base flavor. What it frees only there is kept by
counts in the generational flavor, so each of these objects has a referrer among them. Going back
from referrer to referrer one comes to objects all of which refer to each other. They cannot all
have been stale, or counts would have kept them in the base flavor, too. So one of them is new, or
it was fresh already when the flavors parted.

An increment that collects cycles is another matter. It spares what logged objects refer to, and in
the generational flavor there are more of them.

Results:
1. `Heap.exists_knot`: going back in a finite set one comes to a knot.
2. `Tallied.knot_fresh`: a freed knot holds a fresh object.
3. `Ledger.covered_of_fresh`: old references to fresh objects are covered.
4. `flavors_differ_by_fresh_cycles`: what is left in the generational flavor only.
5. `flavors_differ_without_new_cycles`: it is not due to new objects if a fresh one was there
   before, or if the increment collects cycles.
-/

namespace DeferredCount

/-! ## Knots -/

/-- If each object of a finite set has a referrer in the set, one can go back from each of them to
a knot: every object from which one gets to the knot can be reached from it. -/
theorem Heap.exists_knot {h : Heap} {S : Finset Ref} {o : Ref}
    (behind : ∀ p ∈ S, ∃ z ∈ S, h.Refers z p) (ho : o ∈ S) :
    ∃ y ∈ S, Relation.ReflTransGen h.Refers y o ∧
      ∀ z ∈ S, Relation.ReflTransGen h.Refers z y → Relation.TransGen h.Refers y z := by
  classical
  let before (y : Ref) : Finset Ref := S.filter fun z => Relation.ReflTransGen h.Refers z y
  have start : o ∈ before o := Finset.mem_filter.2 ⟨ho, .refl⟩
  -- nobody has fewer objects before it than `y`
  obtain ⟨y, hy, fewest⟩ := Finset.exists_min_image (before o) (fun y => (before y).card) ⟨o, start⟩
  obtain ⟨hy, path⟩ := Finset.mem_filter.1 hy
  have back : ∀ z ∈ S, Relation.ReflTransGen h.Refers z y → Relation.ReflTransGen h.Refers y z := by
    intro z hz ahead
    have fewer : before z ⊆ before y := fun w hw => by
      obtain ⟨hw, ahead'⟩ := Finset.mem_filter.1 hw
      exact Finset.mem_filter.2 ⟨hw, ahead'.trans ahead⟩
    have same : before z = before y :=
      Finset.eq_of_subset_of_card_le fewer (fewest z (Finset.mem_filter.2 ⟨hz, ahead.trans path⟩))
    have here : y ∈ before z := same ▸ Finset.mem_filter.2 ⟨hy, .refl⟩
    exact (Finset.mem_filter.1 here).2
  obtain ⟨z, hz, refers⟩ := behind y hy
  have cycle : Relation.TransGen h.Refers y y :=
    Relation.TransGen.tail' (back z hz (.single refers)) refers
  exact ⟨y, hy, path, fun z hz ahead => cycle.trans_left (back z hz ahead)⟩

/-- Freed objects each of which has a referrer among them are not all stale, since their counts
would have kept them. -/
theorem Tallied.knot_fresh {h : Heap} {due roots : List Ref} {F C : Finset Ref}
    (t : Tallied h due roots) (least : IsLeast {S | Closed h due S} F) (freed : C ⊆ F)
    (some : C.Nonempty) (behind : ∀ p ∈ C, ∃ z ∈ C, p ∈ (h.view z).referents) :
    ∃ c ∈ C, (h.view c).header.fresh = true := by
  by_contra none
  have stale : ∀ c ∈ C, (h.view c).header.fresh = false := by simpa using none
  have sub := least.1.subset
  have sub' : F \ C ⊆ h.counted ∪ h.permanents := Finset.sdiff_subset.trans sub
  -- the others would be closed without them
  have closed : Closed h due (F \ C) := {
    unstuck := Finset.sdiff_subset.trans least.1.unstuck
    closed := fun p hp pos whole => by
      obtain ⟨unrooted, outside⟩ := (t.spent_iff hp sub').1 whole
      have spent := (t.spent_iff hp sub).2 ⟨unrooted, fun x hx left =>
        outside x hx fun inside => left (Finset.mem_sdiff.1 inside).1⟩
      refine Finset.mem_sdiff.2 ⟨least.1.closed p hp pos spent, fun inside => ?_⟩
      obtain ⟨z, hz, refers⟩ := behind p inside
      have known := Heap.mem_union_permanents.1 (sub (freed hz))
      exact ObjectView.owes_ne_zero.2 ⟨stale z hz, refers⟩
        (outside z known fun left => (Finset.mem_sdiff.1 left).2 hz) }
  obtain ⟨c, hc⟩ := some
  exact (Finset.mem_sdiff.1 (least.2 closed (freed hc))).2 hc

/-! ## Who refers to fresh objects -/

namespace Ledger

variable {h : Heap} {e : Entries} {o z : Ref}

/-- A reference to a fresh object was not counted yet. So it is covered, unless the object that
refers is fresh, too. -/
theorem covered_of_fresh (l : Ledger h e) (ho : o ∈ h.counted)
    (fresh : (h.view o).header.fresh = true) (hz : z ∈ h.known)
    (stale : (h.view z).header.fresh = false) (refers : o ∈ (h.view z).referents) :
    0 < h.covered e.objects e.fields o := by
  obtain ⟨-, one, due⟩ := (l.agrees o (.inl ho)).fresh fresh
  have unstuck : h.count o ≠ Header.stuck := by
    rw [Heap.count, one]
    decide
  have balance := l.balance o ho unstuck
  have owes := Nat.pos_of_ne_zero (ObjectView.owes_ne_zero.2 ⟨stale, refers⟩)
  have owed : (h.view z).owes o ≤ h.owed (h.counted ∪ h.permanents) o :=
    Finset.single_le_sum (f := fun z => (h.view z).owes o) (fun _ _ => Nat.zero_le _)
      (Heap.mem_union_permanents.2 hz)
  have decrement := List.count_pos_iff.2 due
  rw [Heap.count, one] at balance
  omega

/-- What asks for an object to be scanned: a root, or an object that is not fresh or is scanned
itself. -/
theorem referrer (l : Ledger h e) {roots : List Ref} {S : Finset Ref} (sub : ∀ z ∈ S, z ∈ h.known)
    (pos : 0 < h.gains roots e.objects e.fields S o) : o ∈ roots ∨
      ∃ z ∈ h.known, o ∈ (h.view z).referents ∧ ((h.view z).header.fresh = false ∨ z ∈ S) := by
  rw [Heap.gains_pos] at pos
  rcases pos with root | (⟨z, hz, slot⟩ | ⟨t, ht, slot⟩) | ⟨z, hz, slot⟩
  · exact .inl root
  · have known := l.objects_known z hz
    have agrees := l.agrees z known
    refine .inr ⟨z, known, slot, .inl ?_⟩
    rw [Bool.eq_false_iff]
    intro fresh
    exact Bool.noConfusion ((agrees.fresh fresh).1.symm.trans (agrees.logged.1 hz))
  · have known := l.fields_known t ht
    exact .inr ⟨t.object, known, Ticket.mem_referents slot,
      .inl ((l.agrees _ known).fields t ht rfl).2.2⟩
  · exact .inr ⟨z, sub z hz, slot, .inr hz⟩

end Ledger

/-! ## Two increments -/

/-- The heap `h` with the entries `e` and the heap `k` with `d` are kindred, and what is fresh in
`k` is fresh in `h`. An increment of each of them left `h'` and `k'`: it scanned the objects `N`
(`M`), which left `g` (`f`), and freed the objects `F` (`K`). No count is zero at first, or stuck in
the end. -/
structure Estranged (h : Heap) (e : Entries) (N : Finset Ref) (g : Heap) (F : Finset Ref)
    (h' k : Heap) (d : Entries) (M : Finset Ref) (f : Heap) (K : Finset Ref) (k' : Heap) :
    Prop where
  kindred : h.Kindred k
  fresh : ∀ x ∈ k.known, (k.view x).header.fresh = true → (h.view x).header.fresh = true
  ledger : Ledger h e
  ledger' : Ledger k d
  positive : ∀ o ∈ h.counted, h.count o ≠ 0
  left : Incremented h e N g F h'
  right : Incremented k d M f K k'
  unstuck : ∀ o ∈ h'.counted, h'.count o ≠ Header.stuck
  unstuck' : ∀ o ∈ k'.counted, k'.count o ≠ Header.stuck

namespace Estranged

variable {h g h' k f k' : Heap} {e d : Entries} {N F M K : Finset Ref} {ms ns : List Mutator}
  {x o : Ref}

/-- Counted slots refer to what they referred to before. -/
theorem refers_iff (s : Estranged h e N g F h' k d M f K k') (hx : x ∈ h.known) :
    (o ∈ (g.view x).referents ↔ o ∈ (h.view x).referents) ∧
      (o ∈ (f.view x).referents ↔ o ∈ (h.view x).referents) := by
  have known : x ∈ k.known := s.kindred.known_eq ▸ hx
  simp only [ObjectView.mem_referents, (s.left.view x hx).targets, (s.right.view x known).targets,
    s.kindred.targets_eq hx, and_self]

/-- What is scanned in the first heap is scanned in the second one, unless it is not fresh there. -/
theorem scanned (s : Estranged h e N g F h' k d M f K k') (hx : x ∈ N)
    (young : (k.view x).header.fresh = true) : x ∈ M := by
  classical
  -- these are closed in the first heap
  have closes : Closes h h.client.scanRoots.state e.objects e.fields
      (N.filter fun x => (k.view x).header.fresh = true → x ∈ M) := {
    fresh := fun x hx => s.left.scanned.1.fresh x (Finset.mem_filter.1 hx).1
    closed := fun x hx fresh pos => by
      have scanned : x ∈ N := s.left.scanned.1.closed x hx fresh (by
        rw [Heap.gains_pos] at pos ⊢
        exact pos.imp_right (Or.imp_right fun ⟨z, hz, slot⟩ =>
          ⟨z, (Finset.mem_filter.1 hz).1, slot⟩))
      refine Finset.mem_filter.2 ⟨scanned, fun young => ?_⟩
      have counted : x ∈ k.counted := s.kindred.counted_eq ▸ hx
      refine s.right.scanned.1.closed x counted young ?_
      rw [Heap.gains_pos, ← s.kindred.client]
      rcases s.ledger.referrer (fun z hz => .inl
        (s.left.scanned.1.fresh z (Finset.mem_filter.1 hz).1).1) pos with root | ⟨z, hz, slot, asks⟩
      · exact .inl root
      · right
        have known : z ∈ k.known := s.kindred.known_eq ▸ hz
        have slot' : x ∈ (k.view z).referents := by
          rw [ObjectView.mem_referents, s.kindred.targets_eq hz, ← ObjectView.mem_referents]
          exact slot
        cases old : (k.view z).header.fresh with
        | false =>
          have covered := s.ledger'.covered_of_fresh counted young known old slot'
          exact .inl (Heap.covered_pos.1 covered)
        | true =>
          have member := asks.resolve_left (by rw [s.fresh z known old]; decide)
          exact .inr ⟨z, (Finset.mem_filter.1 member).2 old, slot'⟩ }
  exact (Finset.mem_filter.1 (s.left.scanned.2 closes hx)).2 young

/-- What is not fresh once the first heap was scanned is not fresh in the second one, either. -/
theorem stale (s : Estranged h e N g F h' k d M f K k') (hx : x ∈ h.known)
    (stale : (g.view x).header.fresh = false) : (f.view x).header.fresh = false := by
  have known : x ∈ k.known := s.kindred.known_eq ▸ hx
  rw [Bool.eq_false_iff] at stale ⊢
  intro fresh
  obtain ⟨young, unscanned⟩ := (s.right.view x known).fresh.1 fresh
  exact stale ((s.left.view x hx).fresh.2
    ⟨s.fresh x known young, fun scanned => unscanned (s.scanned scanned young)⟩)

/-- Whatever is freed in the second heap is freed in the first one. -/
theorem freed_subset (s : Estranged h e N g F h' k d M f K k') : K ⊆ F := by
  have least := s.left.reclaimed.least
  have unstuck : ∀ {p}, p ∈ g.unstuck ↔ p ∈ h.counted := s.left.mem_unstuck s.unstuck
  have unstuck' : ∀ {p}, p ∈ f.unstuck ↔ p ∈ h.counted := by
    intro p
    rw [s.right.mem_unstuck s.unstuck', s.kindred.counted_eq]
  have roots : k.client.scanRoots.state = h.client.scanRoots.state := by rw [s.kindred.client]
  have known : f.known = h.known := by rw [s.right.known_eq, s.kindred.known_eq]
  have inside : F ⊆ f.unstuck := fun p hp => unstuck'.2 (unstuck.1 (least.1.unstuck hp))
  refine s.right.reclaimed.least.2 ⟨inside, fun p hp pos whole => ?_⟩
  have sub : F ⊆ f.counted ∪ f.permanents := fun p hp =>
    Finset.mem_union_left _ (Heap.mem_unstuck.1 (inside hp)).1
  obtain ⟨unrooted, outside⟩ := (s.right.tallied.spent_iff hp sub).1 whole
  have counted := unstuck'.1 hp
  rw [roots] at unrooted
  have spent := (s.left.tallied.spent_iff (unstuck.2 counted) least.1.subset).2 ⟨unrooted,
    fun x hx left => by
      by_contra owes
      have hx : x ∈ h.known := s.left.known_eq ▸ hx
      obtain ⟨mine, theirs⟩ := s.refers_iff (o := p) hx
      obtain ⟨stale, refers⟩ := ObjectView.owes_ne_zero.1 owes
      exact ObjectView.owes_ne_zero.2 ⟨s.stale hx stale, theirs.2 (mine.1 refers)⟩
        (outside x (known ▸ hx) left)⟩
  exact least.1.closed p (unstuck.2 counted)
    (Nat.pos_of_ne_zero (s.left.counted_positive s.positive counted)) spent

/-- Whatever is left in the first heap is left in the second one. -/
theorem counted_subset (s : Estranged h e N g F h' k d M f K k') : h'.counted ⊆ k'.counted := by
  rw [s.left.reclaimed.counted, s.right.reclaimed.counted, s.left.counted, s.right.counted,
    s.kindred.counted_eq]
  exact Finset.sdiff_subset_sdiff subset_rfl s.freed_subset

/-- What is left in the second heap only. -/
theorem mem_sdiff (s : Estranged h e N g F h' k d M f K k') :
    o ∈ F \ K ↔ o ∈ k'.counted ∧ o ∉ h'.counted := by
  have freed : o ∈ F → o ∈ h.counted := fun member =>
    (s.left.mem_unstuck s.unstuck).1 (s.left.reclaimed.least.1.unstuck member)
  rw [s.left.reclaimed.counted, s.right.reclaimed.counted, s.left.counted, s.right.counted,
    s.kindred.counted_eq, Finset.mem_sdiff, Finset.mem_sdiff, Finset.mem_sdiff]
  tauto

/-- What refers to an object in the end did so all along. -/
theorem of_refers (s : Estranged h e N g F h' k d M f K k') (c' : Collected k ns k')
    (refers : k'.Refers x o) : x ∈ g.known ∧ o ∈ (g.view x).referents := by
  have known : x ∈ k.known := c'.known refers.1
  have mine : x ∈ h.known := s.kindred.known_eq ▸ known
  rw [s.left.known_eq, (s.refers_iff mine).1, ObjectView.mem_referents,
    ← s.kindred.targets_eq mine, ← c'.targets x known, ← ObjectView.mem_referents]
  exact ⟨mine, refers.2⟩

/-- An object that is left in the second heap only has a referrer that is, too. -/
theorem behind (s : Estranged h e N g F h' k d M f K k') (c' : Collected k ns k')
    (ho : o ∈ F \ K) : ∃ z ∈ F \ K, k'.Refers z o := by
  obtain ⟨counted, -⟩ := s.mem_sdiff.1 ho
  have positive : ∀ p ∈ k.counted, k.count p ≠ 0 := fun p hp => by
    rw [s.kindred.counted_eq] at hp
    rw [Heap.count, (s.kindred.view p (.inl hp)).count]
    exact s.positive p hp
  obtain ⟨unrooted, outside⟩ :=
    s.left.tallied.apart s.left.reclaimed.least (Finset.mem_sdiff.1 ho).1
  rcases c'.exact.root_or_referrer counted (s.right.positive positive o counted)
    (s.unstuck' o counted) with root | ⟨z, refers⟩
  · rw [s.kindred.client] at unrooted
    exact absurd root unrooted
  · obtain ⟨known, slot⟩ := s.of_refers c' refers
    have freed : z ∈ F := by
      by_contra left
      exact outside z known left slot
    refine ⟨z, Finset.mem_sdiff.2 ⟨freed, fun gone => ?_⟩, refers⟩
    rcases refers.1 with left | permanent
    · rw [s.right.reclaimed.counted] at left
      exact (Finset.mem_sdiff.1 left).2 gone
    · rw [c'.permanent, ← s.right.permanent] at permanent
      have counted := (Heap.mem_unstuck.1 (s.right.reclaimed.least.1.unstuck gone)).1
      exact s.right.tallied.cleared.wellFormed.permanent_ne permanent counted rfl

/-- An object that is left in the second heap only can be reached from a cycle through an object
that was fresh in the first one. -/
theorem cycle (s : Estranged h e N g F h' k d M f K k') (c' : Collected k ns k')
    (ho : o ∈ F \ K) : ∃ c ∈ h.counted, (h.view c).header.fresh = true ∧
      Relation.TransGen k'.Refers c c ∧ Relation.ReflTransGen k'.Refers c o := by
  classical
  obtain ⟨y, hy, path, knot⟩ := Heap.exists_knot (fun p hp => s.behind c' hp) ho
  -- the knot: all objects left in the second heap only from which one gets to `y`
  let C := (F \ K).filter fun z => Relation.ReflTransGen k'.Refers z y
  have freed : C ⊆ F := (Finset.filter_subset ..).trans Finset.sdiff_subset
  have behind : ∀ p ∈ C, ∃ z ∈ C, p ∈ (g.view z).referents := fun p hp => by
    obtain ⟨hp, ahead⟩ := Finset.mem_filter.1 hp
    obtain ⟨z, hz, refers⟩ := s.behind c' hp
    exact ⟨z, Finset.mem_filter.2 ⟨hz, .head refers ahead⟩, (s.of_refers c' refers).2⟩
  obtain ⟨c, hc, fresh⟩ := s.left.tallied.knot_fresh s.left.reclaimed.least freed
    ⟨y, Finset.mem_filter.2 ⟨hy, .refl⟩⟩ behind
  obtain ⟨member, ahead⟩ := Finset.mem_filter.1 hc
  have counted := (s.left.mem_unstuck s.unstuck).1 (s.left.reclaimed.least.1.unstuck (freed hc))
  have before := ((s.left.view c (.inl counted)).fresh.1 fresh).1
  exact ⟨c, counted, before, .trans_right ahead (knot c member ahead), ahead.trans path⟩

end Estranged

/-! ## What is allocated -/

section

variable {settings : Settings} {h h' : Heap} {ms ms' : List Mutator} {e : Entries}

/-- A request brings no object but the one that the client is told of. -/
theorem Request.serve_known {q : Request} {a : Reply} (r : Ready settings h ms e)
    (plain : q.isCollection = false) (allowed : q.Allowed h)
    (served : q.serve ms h = .ok (a, ms') h') :
    h'.known = h.known ∨ ∃ x, a = .created (some x) ∧ h'.known = insert x h.known := by
  cases q with
  | bind =>
    obtain ⟨m, _, bound, served⟩ := HeapM.bind_eq_ok.1 served
    cases served
    obtain ⟨-, -, -, rest⟩ := Mutator.of_bind bound
    left
    rw [rest]
    rfl
  | destroy i =>
    left
    rcases serve_destroy_eq_ok.1 served with ⟨-, -, -, rfl⟩ | ⟨m, -, ended, -, -⟩
    · rfl
    · obtain ⟨-, rest⟩ := Mutator.destroy_adds ended
      rw [rest]
      rfl
  | act i t =>
    rcases serve_act_eq_ok.1 served with ⟨-, -, -, rfl⟩ | ⟨m, m', found, performed, -⟩
    · exact .inl rfl
    · obtain ⟨before, after, rfl, -⟩ := exists_split_of_getElem? found
      cases store : t.isAllocation with
      | false =>
        obtain ⟨_, _, _, run, acted, -⟩ := t.performs r allowed store
        cases run.symm.trans performed
        exact .inl acted.known_eq
      | true =>
        obtain ⟨slots, array, sem, rfl⟩ : ∃ slots array sem, t = .allocate slots array sem := by
          cases t with
          | allocate slots array sem => exact ⟨slots, array, sem, rfl⟩
          | _ => cases store
        obtain ⟨⟨o, _⟩, _, allocated, performed⟩ := HeapM.bind_eq_ok.1 performed
        cases performed
        rcases Mutator.of_newObject r.stocked_cons r.ledger.wellFormed allocated with
          ⟨-, -, u⟩ | ⟨x, _, rfl, created, -⟩
        · left
          rw [Heap.known, Heap.known, u.counted, u.permanent]
        · exact .inr ⟨x, rfl, created.known_eq⟩
  | setRoots roots =>
    cases served
    exact .inl rfl
  | setExhaustion hook =>
    cases served
    exact .inl rfl
  | collect kind => cases plain

/-- The client was told of every object that is new. -/
theorem Serves.created {qs : List Request} {as : List Reply} (served : Serves h ms qs as h' ms')
    (r : Ready settings h ms e) (plain : ∀ q ∈ qs, q.isCollection = false) {x : Ref}
    (hx : x ∈ h'.known) (new : x ∉ h.known) : .created (some x) ∈ as := by
  induction served generalizing e with
  | nil => exact absurd hx new
  | @cons h h₁ h' ms ms₁ ms' q qs a as allowed first rest ih =>
    have plain₁ := plain q List.mem_cons_self
    obtain ⟨d, r₁, -⟩ := r.turns (Request.turns plain₁ allowed first)
    by_cases early : x ∈ h₁.known
    · rcases q.serve_known r plain₁ allowed first with same | ⟨y, rfl, more⟩
      · exact absurd (same ▸ early) new
      · rw [more] at early
        obtain rfl := early.resolve_right new
        exact List.mem_cons_self
    · exact List.mem_cons_of_mem _
        (ih r₁ (fun q hq => plain q (List.mem_cons_of_mem _ hq)) hx early)

end

/-! ## Going on in another flavor -/

/-- The heap of an instance that goes on in another flavor. -/
def Heap.withFlavor (h : Heap) (f : Flavor) : Heap :=
  { h with settings := { h.settings with flavor := f } }

/-- The mutator as if it had been bound in another flavor. It keeps what it logged. -/
def Mutator.withFlavor (f : Flavor) (m : Mutator) : Mutator := { m with flavor := f }

theorem Ledger.withFlavor {h : Heap} {e : Entries} (l : Ledger h e) (f : Flavor) :
    Ledger (h.withFlavor f) e where
  wellFormed := l.wellFormed.congr rfl rfl rfl l.wellFormed.laid
  once := l.once
  slots_known := l.slots_known
  agrees x hx := { l.agrees x hx with
    fields := fun k hk eq => by
      obtain ⟨regular, logged, fresh⟩ := (l.agrees x hx).fields k hk eq
      exact ⟨{ regular with }, logged, fresh⟩ }
  permanent := l.permanent
  objects_known := l.objects_known
  objects_nodup := l.objects_nodup
  fields_known := l.fields_known
  fields_nodup := l.fields_nodup
  decrements_known := l.decrements_known
  roots_known := l.roots_known
  balance := l.balance

/-- The flavor only matters to objects to come. -/
theorem Ready.withFlavor {settings : Settings} {h : Heap} {ms : List Mutator} {e : Entries}
    (r : Ready settings h ms e) (f : Flavor) :
    Ready { settings with flavor := f } (h.withFlavor f) (ms.map (.withFlavor f)) e where
  settings_eq := by
    rw [Heap.withFlavor, r.settings_eq]
  outfits m hm := by
    obtain ⟨n, hn, rfl⟩ := List.mem_map.1 hm
    exact ⟨(r.outfits n hn).1, rfl⟩
  ledger := r.ledger.withFlavor f
  held := r.held.congr rfl (by rw [List.map_map]; rfl)
  stocked := by
    rw [List.map_map]
    exact r.stocked.congr rfl rfl rfl fun _ _ => rfl
  idle := r.idle
  roots_known := r.roots_known

theorem Heap.Kindred.withFlavor (h : Heap) (f f' : Flavor) :
    (h.withFlavor f).Kindred (h.withFlavor f') where
  small := rfl
  large := rfl
  permanent := rfl
  client := rfl
  oldRoots := rfl
  progress := rfl
  view _ _ := ⟨rfl, rfl, rfl⟩

/-- The two flavors of an instance, side by side. -/
theorem Abreast.withFlavor {settings : Settings} {h : Heap} {ms : List Mutator} {e : Entries}
    (r : Ready settings h ms e) (f f' : Flavor) :
    Abreast { settings with flavor := f } { settings with flavor := f' } (h.withFlavor f)
      (ms.map (.withFlavor f)) (h.withFlavor f') (ms.map (.withFlavor f')) where
  left := ⟨e, r.withFlavor f⟩
  right := ⟨e, r.withFlavor f'⟩
  kindred := .withFlavor h f f'
  allocators := by
    rw [List.map_map, List.map_map]
    rfl

/-- Suppose that no collection of a run collected cycles, and that an instance goes on in either
flavor from any point of it. Requests are answered in the same way. The increment that follows
completes in both, with crews that take turns. In whichever order its crew works, unless it collects
cycles or a count is stuck, the slots are the same, what is left in the base flavor is left in the
generational one, and whatever is left there only can be reached from a cycle of references through
an object that was allocated in between, or that was fresh at the start. -/
theorem flavors_differ_by_fresh_cycles {settings : Settings} {h₀ h₁ : Heap} {ms₀ ms₁ : List Mutator}
    {qs : List Request} {as : List Reply} (run : PlainRun settings h₀ ms₀)
    (admitted : settings.Admitted) (plain : ∀ q ∈ qs, q.isCollection = false)
    (served : Serves (h₀.withFlavor .base) (ms₀.map (.withFlavor .base)) qs as h₁ ms₁)
    (increment : h₁.collectsCycles .increment = false) :
    ∃ h₂ ms₂,
      Serves (h₀.withFlavor .generational) (ms₀.map (.withFlavor .generational)) qs as h₂ ms₂ ∧
      (∃ k₁ ns₁ k₂ ns₂, HeapM.collect .increment ms₁ h₁ = .ok ns₁ k₁ ∧
        HeapM.collect .increment ms₂ h₂ = .ok ns₂ k₂) ∧
      ∀ k₁ ns₁ k₂ ns₂, Collects .increment ms₁ h₁ ns₁ k₁ → Collects .increment ms₂ h₂ ns₂ k₂ →
        (∀ o ∈ k₁.counted, k₁.count o ≠ Header.stuck) →
        (∀ o ∈ k₂.counted, k₂.count o ≠ Header.stuck) →
        (∀ x ∈ h₁.known, (k₂.view x).targets = (k₁.view x).targets) ∧ k₁.known ⊆ k₂.known ∧
          ∀ x ∈ k₂.known, x ∉ k₁.known → ∃ c,
            (.created (some c) ∈ as ∨ c ∈ h₀.known ∧ (h₀.view c).header.fresh = true) ∧
            Relation.TransGen k₂.Refers c c ∧ Relation.ReflTransGen k₂.Refers c x := by
  obtain ⟨e₀, r₀⟩ := run.run.ready
  have start := r₀.withFlavor .base
  have start' := r₀.withFlavor .generational
  -- the requests lead to kindred heaps
  obtain ⟨h₂, ms₂, served', a⟩ := (Abreast.withFlavor r₀ .base .generational).serves
    admitted.capacity plain served
  have turns := served.turns plain
  have turns' := served'.turns plain
  obtain ⟨d, r₁, elapsed⟩ := start.turns turns
  obtain ⟨d', r₂, elapsed'⟩ := start'.turns turns'
  have increment' : h₂.collectsCycles .increment = false := by
    rw [Heap.collectsCycles, r₁.settings_eq] at increment
    rw [Heap.collectsCycles, r₂.settings_eq, a.kindred.progress]
    exact increment
  -- both increments complete
  obtain ⟨ns₁, k₁, done⟩ := r₁.collect admitted.collectors admitted.capacity .increment
  obtain ⟨ns₂, k₂, done'⟩ := r₂.collect admitted.collectors admitted.capacity .increment
  refine ⟨h₂, ms₂, served', ⟨k₁, ns₁, k₂, ns₂, done, done'⟩, ?_⟩
  intro k₁ ns₁ k₂ ns₂ first second unstuck unstuck'
  have c₁ := (r₁.collected first).1
  have c₂ := (r₂.collected second).1
  obtain ⟨N, g, F, i₁⟩ := r₁.incremented first increment
  obtain ⟨M, f, K, i₂⟩ := r₂.incremented second increment'
  have estranged : Estranged h₁ (e₀ ++ d) N g F k₁ h₂ (e₀ ++ d') M f K k₂ := {
    kindred := a.kindred
    fresh := fun x hx fresh => by
      by_cases old : x ∈ h₀.known
      · rw [(elapsed'.later x old).fresh] at fresh
        rw [(elapsed.later x old).fresh]
        exact fresh
      · cases ((start'.turns_fresh_iff turns' hx old).1 fresh).1
    ledger := r₁.ledger
    ledger' := r₂.ledger
    positive := start.turns_positive turns run.positive
    left := i₁
    right := i₂
    unstuck
    unstuck' }
  have permanent : k₂.permanent = k₁.permanent := by
    rw [c₂.permanent, c₁.permanent, a.kindred.permanent]
  refine ⟨fun x hx => ?_, ?_, ?_⟩
  · rw [c₁.targets x hx, c₂.targets x (a.kindred.known_eq ▸ hx), a.kindred.targets_eq hx]
  · rintro x (counted | old)
    · exact .inl (estranged.counted_subset counted)
    · exact .inr (permanent ▸ old)
  · rintro x (counted | old) gone
    · have only := estranged.mem_sdiff.2 ⟨counted, fun left => gone (.inl left)⟩
      obtain ⟨c, member, fresh, cycle, path⟩ := estranged.cycle c₂ only
      refine ⟨c, ?_, cycle, path⟩
      by_cases old : c ∈ h₀.known
      · rw [(elapsed.later c old).fresh] at fresh
        exact .inr ⟨old, fresh⟩
      · exact .inl (served.created start plain (.inl member) old)
    · exact absurd (.inr (permanent ▸ old)) gone

/-! ## Two ways to go on -/

/-- An instance goes on in either flavor. It serves the requests, and an increment follows. Is the
outcome of both as one wants it? -/
def forks (ms : List Mutator) (h : Heap) (qs : List Request)
    (p : List Reply → (h₁ k₁ k₂ : Heap) → Bool) : Bool :=
  (Request.serveAll? (h.withFlavor .base) (ms.map (.withFlavor .base)) qs).any
    fun (as, h₁, ms₁) =>
  (Request.serveAll? (h.withFlavor .generational) (ms.map (.withFlavor .generational)) qs).any
    fun (as', h₂, ms₂) =>
  decide (as = as') && (HeapM.collect .increment ms₁).holds (fun _ k₁ =>
    (HeapM.collect .increment ms₂).holds (fun _ k₂ => p as h₁ k₁ k₂) h₂) h₁

theorem of_forks {ms : List Mutator} {h : Heap} {qs : List Request}
    {p : List Reply → (h₁ k₁ k₂ : Heap) → Bool} (eval : forks ms h qs p = true) :
    ∃ as h₁ ms₁ h₂ ms₂ k₁ ns₁ k₂ ns₂,
      Serves (h.withFlavor .base) (ms.map (.withFlavor .base)) qs as h₁ ms₁ ∧
      Serves (h.withFlavor .generational) (ms.map (.withFlavor .generational)) qs as h₂ ms₂ ∧
      HeapM.collect .increment ms₁ h₁ = .ok ns₁ k₁ ∧
      HeapM.collect .increment ms₂ h₂ = .ok ns₂ k₂ ∧ p as h₁ k₁ k₂ = true := by
  simp only [forks, Option.any_eq_true, HeapM.holds_iff, Bool.and_eq_true, decide_eq_true_eq,
    ← serves_iff, Prod.exists] at eval
  obtain ⟨as, h₁, ms₁, served, _, h₂, ms₂, served', rfl, ns₁, k₁, done, ns₂, k₂, done',
    outcome⟩ := eval
  exact ⟨as, h₁, ms₁, h₂, ms₂, k₁, ns₁, k₂, ns₂, served, served', done, done', outcome⟩

/-- A new instance serves the requests `qs`, and an increment follows that is not due to collect
cycles. From there it goes on in either flavor with the requests `rs`. -/
def laterForks (s : Settings) (qs rs : List Request)
    (p : (h₀ : Heap) → List Reply → (h₁ k₁ k₂ : Heap) → Bool) : Bool :=
  (Request.serveAll? (.ofSettings s) [] qs).any fun (_, h, ms) =>
    !h.collectsCycles .increment &&
      (HeapM.collect .increment ms).holds (fun ms₀ h₀ => forks ms₀ h₀ rs (p h₀)) h

/-- The collection that was the last one left no fresh object. -/
theorem of_laterForks {s : Settings} {qs rs : List Request}
    {p : (h₀ : Heap) → List Reply → (h₁ k₁ k₂ : Heap) → Bool}
    (plain : ∀ q ∈ qs, q.isCollection = false) (eval : laterForks s qs rs p = true) :
    ∃ h₀ ms₀, PlainRun s h₀ ms₀ ∧ (∀ x ∈ h₀.known, (h₀.view x).header.fresh = false) ∧
      forks ms₀ h₀ rs (p h₀) = true := by
  simp only [laterForks, Option.any_eq_true, HeapM.holds_iff, Bool.and_eq_true,
    Bool.not_eq_true', ← serves_iff, Prod.exists] at eval
  obtain ⟨_, h, ms, reared, first, ms₀, h₀, left, eval⟩ := eval
  have begun : PlainRun s h ms := PlainRun.start.turns (reared.turns plain)
  obtain ⟨e, r⟩ := begun.run.ready
  have left := Collects.of_collect left
  have exact := (r.collected left).1.exact
  exact ⟨h₀, ms₀, begun.increment first left, fun x hx => (exact.blank hx).stale, eval⟩

/-- The twin of the parent is allocated. It refers to itself and to the parent, and nothing is a
root any more. -/
def Request.clinging : List Request :=
  [.act 0 (.allocate 2 false .default), .act 0 (.write .twin 0 (some .twin)),
    .act 0 (.write .twin 1 (some .parent)), .setRoots []]

/-- The base flavor frees the whole family. In the generational flavor the child is left, since the
parent is, since the twin is, which refers to itself. -/
theorem flavors_differ_by_fresh_cycles_twin : ∃ h₀ ms₀ as h₁ ms₁ h₂ ms₂ k₁ ns₁ k₂ ns₂,
    PlainRun {} h₀ ms₀ ∧ Ref.child ∈ h₀.known ∧
    Serves (h₀.withFlavor .base) (ms₀.map (.withFlavor .base)) Request.clinging as h₁ ms₁ ∧
    Serves (h₀.withFlavor .generational) (ms₀.map (.withFlavor .generational)) Request.clinging
      as h₂ ms₂ ∧
    HeapM.collect .increment ms₁ h₁ = .ok ns₁ k₁ ∧ HeapM.collect .increment ms₂ h₂ = .ok ns₂ k₂ ∧
    Ref.child ∉ k₁.known ∧ Ref.child ∈ k₂.known ∧ k₁.known ⊆ k₂.known ∧
    ∃ c, .created (some c) ∈ as ∧ Relation.TransGen k₂.Refers c c ∧
      Relation.ReflTransGen k₂.Refers c .child := by
  have eval : laterForks {} Request.rearing Request.clinging (fun h₀ _ h₁ k₁ k₂ => decide
      (h₁.collectsCycles .increment = false ∧ (∀ o ∈ k₁.counted, k₁.count o ≠ Header.stuck) ∧
        (∀ o ∈ k₂.counted, k₂.count o ≠ Header.stuck) ∧ Ref.child ∈ h₀.known ∧
        Ref.child ∉ k₁.known ∧ Ref.child ∈ k₂.known)) = true := by
    decide +kernel
  obtain ⟨h₀, ms₀, run, stale, eval⟩ := of_laterForks (by decide) eval
  obtain ⟨as, h₁, ms₁, h₂, ms₂, k₁, ns₁, k₂, ns₂, served, served', done, done', outcome⟩ :=
    of_forks eval
  obtain ⟨increment, unstuck, unstuck', child, gone, kept⟩ := of_decide_eq_true outcome
  have admitted : ({} : Settings).Admitted := by
    intro k
    cases k <;> rfl
  obtain ⟨_, _, again, -, same⟩ :=
    flavors_differ_by_fresh_cycles run admitted (by decide) served increment
  -- the instance did in the generational flavor what was evaluated
  cases (serves_iff.1 again).symm.trans (serves_iff.1 served')
  obtain ⟨-, more, cycles⟩ :=
    same _ _ _ _ (.of_collect done) (.of_collect done') unstuck unstuck'
  obtain ⟨c, new, cycle, path⟩ := cycles _ kept gone
  have new := new.resolve_right fun ⟨old, fresh⟩ =>
    Bool.noConfusion (fresh.symm.trans (stale c old))
  exact ⟨h₀, ms₀, as, h₁, ms₁, h₂, ms₂, k₁, ns₁, k₂, ns₂, run, child, served, served', done, done',
    gone, kept, more, c, new, cycle, path⟩

/-- The parent is allocated and refers to itself. -/
def Request.circling : List Request :=
  [.bind, .act 0 (.allocate 2 false .default), .act 0 (.write .parent 0 (some .parent))]

/-- The parent is allocated and is the only root. -/
def Request.rooting : List Request :=
  [.bind, .act 0 (.allocate 2 false .default), .setRoots [.parent]]

/-- The twin of the parent is allocated and refers to the parent, and nothing is a root. -/
def Request.leaning : List Request :=
  [.act 0 (.allocate 2 false .default), .act 0 (.write .twin 0 (some .parent)), .setRoots []]

/-- The twin leans on the parent, and the increment that follows collects cycles or not. The parent
is left in the generational flavor only, and not due to a cycle through a new object. -/
def Settings.OnlyParentLeft (s : Settings) (collectsCycles : Bool) (h₀ : Heap)
    (ms₀ : List Mutator) : Prop :=
  PlainRun s h₀ ms₀ ∧ ∃ as h₁ ms₁ h₂ ms₂ k₁ ns₁ k₂ ns₂,
    Serves (h₀.withFlavor .base) (ms₀.map (.withFlavor .base)) Request.leaning as h₁ ms₁ ∧
    Serves (h₀.withFlavor .generational) (ms₀.map (.withFlavor .generational)) Request.leaning
      as h₂ ms₂ ∧
    h₁.collectsCycles .increment = collectsCycles ∧
    HeapM.collect .increment ms₁ h₁ = .ok ns₁ k₁ ∧ HeapM.collect .increment ms₂ h₂ = .ok ns₂ k₂ ∧
    (∀ o ∈ k₁.counted, k₁.count o ≠ Header.stuck) ∧
    (∀ o ∈ k₂.counted, k₂.count o ≠ Header.stuck) ∧
    Ref.parent ∈ k₂.known ∧ Ref.parent ∉ k₁.known ∧
    ¬∃ c, .created (some c) ∈ as ∧ Relation.TransGen k₂.Refers c c ∧
      Relation.ReflTransGen k₂.Refers c .parent

/-- What is evaluated of that: there is no new object but the twin, and it is not left. -/
def leavesOnlyParent (collectsCycles : Bool) (as : List Reply) (h₁ k₁ k₂ : Heap) : Bool :=
  decide (h₁.collectsCycles .increment = collectsCycles ∧
    (∀ o ∈ k₁.counted, k₁.count o ≠ Header.stuck) ∧
    (∀ o ∈ k₂.counted, k₂.count o ≠ Header.stuck) ∧
    Ref.parent ∈ k₂.known ∧ Ref.parent ∉ k₁.known ∧ Ref.twin ∉ k₂.known ∧
    ∀ a ∈ as, a = .created (some .twin) ∨ a = .done)

theorem Settings.OnlyParentLeft.of_forks {s : Settings} {collectsCycles : Bool} {h₀ : Heap}
    {ms₀ : List Mutator} (run : PlainRun s h₀ ms₀)
    (eval : forks ms₀ h₀ Request.leaning (leavesOnlyParent collectsCycles) = true) :
    s.OnlyParentLeft collectsCycles h₀ ms₀ := by
  obtain ⟨as, h₁, ms₁, h₂, ms₂, k₁, ns₁, k₂, ns₂, served, served', done, done', outcome⟩ :=
    DeferredCount.of_forks eval
  obtain ⟨due, unstuck, unstuck', kept, gone, twin, new⟩ := of_decide_eq_true outcome
  refine ⟨run, as, h₁, ms₁, h₂, ms₂, k₁, ns₁, k₂, ns₂, served, served', due, done, done', unstuck,
    unstuck', kept, gone, ?_⟩
  rintro ⟨c, created, cycle, -⟩
  obtain ⟨_, refers, -⟩ := Relation.TransGen.head'_iff.1 cycle
  rcases new _ created with eq | eq
  · cases eq
    exact twin refers.1
  · cases eq

/-- If the parent is fresh and refers to itself when the flavors part, it is left, since the twin is
counted in the generational flavor. If every second increment collects cycles, it is left even as a
stale object that refers to nothing: it is spared since the twin was logged. -/
theorem flavors_differ_without_new_cycles :
    (∃ h₀ ms₀, ({} : Settings).OnlyParentLeft false h₀ ms₀) ∧
    ∃ h₀ ms₀, ({ cycleInterval := 2 } : Settings).OnlyParentLeft true h₀ ms₀ ∧
      ∀ x ∈ h₀.known, (h₀.view x).header.fresh = false := by
  constructor
  · have eval : (Request.serveAll? (.ofSettings {}) [] Request.circling).any (fun (_, h, ms) =>
        forks ms h Request.leaning (leavesOnlyParent false)) = true := by
      decide +kernel
    simp only [Option.any_eq_true, ← serves_iff, Prod.exists] at eval
    obtain ⟨_, h, ms, reared, eval⟩ := eval
    exact ⟨h, ms, .of_forks (PlainRun.start.turns (reared.turns (by decide))) eval⟩
  · have eval : laterForks { cycleInterval := 2 } Request.rooting Request.leaning
        (fun _ => leavesOnlyParent true) = true := by
      decide +kernel
    obtain ⟨h₀, ms₀, run, stale, eval⟩ := of_laterForks (by decide) eval
    exact ⟨h₀, ms₀, .of_forks run eval, stale⟩

end DeferredCount
