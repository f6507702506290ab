import DeferredCount.Proofs.Gaps

/-!
# Requests for more pages than there are

The bytes of a page are counted in a word, so a request for `2 ^ 52` pages or more has more bytes
than a word can tell, and the pool sees only those that are left of it modulo `2 ^ 52` pages. If
these are left above the cursor, the request is granted: the cursor moves by them, and all of the
pages are counted. A run of this kind can never be given back.

Where the pages of a pool really went is told by the runs less their multiples of `2 ^ 52` pages:
the pool keeps nothing else, but for the count of its pages.

Results:
1. `Overdrawn.acquire_of_lt`, `Overdrawn.acquire_of_ge`, `Overdrawn.release`: what one step does.
2. `Lending.overdrawn`: what a pool keeps at any point of its history.
3. `oversized_requests_wrap`: what every request gets. It is right unless the request is for
   `2 ^ 52` pages or more and what is left of it fits.
-/

namespace DeferredCount

namespace PageRun

variable {out : List PageRun} {r : PageRun} {a n : Nat}

/-- What an address can tell of a run: its pages modulo `2 ^ 52`. -/
def wrapped (r : PageRun) : PageRun := ⟨r.start, r.pages % 2 ^ 52⟩

/-- The runs as far as pages of the range were handed out for them. -/
def wrappedRuns (out : List PageRun) : List PageRun :=
  (out.map wrapped).filter fun r => 0 < r.pages

theorem wrapped_of_lt (lt : r.pages < 2 ^ 52) : r.wrapped = r := by
  rw [wrapped, Nat.mod_eq_of_lt lt]

theorem wrappedRuns_cons : wrappedRuns (r :: out) =
    if 0 < r.pages % 2 ^ 52 then r.wrapped :: wrappedRuns out else wrappedRuns out := by
  rw [wrappedRuns, List.map_cons, List.filter_cons]
  exact ite_congr decide_eq_true_eq (fun _ => rfl) fun _ => rfl

theorem wrappedRuns_cons_of_lt (pos : 0 < r.pages) (lt : r.pages < 2 ^ 52) :
    wrappedRuns (r :: out) = r :: wrappedRuns out := by
  rw [wrappedRuns_cons, Nat.mod_eq_of_lt lt, if_pos pos, wrapped_of_lt lt]

theorem wrappedRuns_of_lt (pos : ∀ r ∈ out, 0 < r.pages) (lt : ∀ r ∈ out, r.pages < 2 ^ 52) :
    wrappedRuns out = out := by
  induction out with
  | nil => rfl
  | cons r out ih =>
    obtain ⟨pos₁, pos⟩ := List.forall_mem_cons.1 pos
    obtain ⟨lt₁, lt⟩ := List.forall_mem_cons.1 lt
    rw [wrappedRuns_cons_of_lt pos₁ lt₁, ih pos lt]

theorem wrappedRuns_perm {out' : List PageRun} (e : out.Perm out') :
    (wrappedRuns out).Perm (wrappedRuns out') :=
  (e.map _).filter _

theorem total_cons : total (r :: out) = r.pages + total out := by
  rw [total, List.map_cons, List.sum_cons, ← total]

end PageRun

namespace PagePool

variable {start limit : Address} {p p' q : PagePool} {out : List PageRun} {u : PageUsage} {n : Nat}

/-! ## Pages are found before they are counted -/

theorem takeFree_recount {run : PageRun}
    (e : takeFree { p with usage := u } run n = .ok q) :
    p.takeFree run n = .ok { q with usage := p.usage } := by
  unfold takeFree at *
  dsimp only at e ⊢
  split at e
  · next less =>
    obtain ⟨rest, sum, e⟩ := Except.bind_eq_ok.1 e
    cases e
    rw [if_pos less, sum]
    rfl
  · next whole =>
    cases e
    rw [if_neg whole]
    rfl

/-- What a request gets does not depend on the count, which may overflow. -/
theorem acquire_recount {a : Option Address} :
    acquire { p with usage := u } n = .ok (a, q) → p.acquire n =
      match a with
      | none => .ok (none, p)
      | some a => (p.usage.reserve n).map fun usage => (some a, { q with usage }) := by
  intro e
  unfold acquire at *
  obtain ⟨_, checked, e⟩ := Except.bind_eq_ok.1 e
  rw [checked, Except.ok_bind]
  dsimp only at e
  split at e
  · next run found =>
    obtain ⟨taken, e₁, e⟩ := Except.bind_eq_ok.1 e
    obtain ⟨usage, -, e⟩ := Except.bind_eq_ok.1 e
    cases e
    rw [takeFree_recount e₁, Except.ok_bind]
    cases p.usage.reserve n <;> rfl
  · obtain ⟨fresh, e₁, e⟩ := Except.bind_eq_ok.1 e
    rw [e₁, Except.ok_bind]
    split at e
    · next less =>
      cases e
      rw [if_pos less]
      rfl
    · next enough =>
      obtain ⟨cursor, e₂, e⟩ := Except.bind_eq_ok.1 e
      obtain ⟨usage, -, e⟩ := Except.bind_eq_ok.1 e
      cases e
      rw [if_neg enough, e₂, Except.ok_bind]
      cases p.usage.reserve n <;> rfl

/-- Neither does what giving pages back leaves. -/
theorem release_recount {a : Address} (e : release { p with usage := u } a n = .ok q)
    (counted : n ≤ p.usage.reserved) :
    p.release a n =
      .ok { q with usage := { p.usage with reserved := p.usage.reserved - n } } := by
  have usage : p.usage.release n = .ok { p.usage with reserved := p.usage.reserved - n } := by
    rw [PageUsage.release, require, if_pos (decide_eq_true counted)]
    rfl
  unfold release at *
  obtain ⟨_, inside, e⟩ := Except.bind_eq_ok.1 e
  obtain ⟨⟨free₁, run₁⟩, e₁, e⟩ := Except.bind_eq_ok.1 e
  obtain ⟨⟨free₂, run₂⟩, e₂, e⟩ := Except.bind_eq_ok.1 e
  obtain ⟨stop, e₃, e⟩ := Except.bind_eq_ok.1 e
  obtain ⟨_, -, e⟩ := Except.bind_eq_ok.1 e
  rw [show require .runInRange (p.contains a) = _ from inside, Except.ok_bind, e₁, Except.ok_bind]
  dsimp only at e₂ e₃ e ⊢
  rw [e₂, Except.ok_bind]
  dsimp only
  rw [e₃, Except.ok_bind, usage, Except.ok_bind]
  split at e
  · next top =>
    cases e
    rw [if_pos top]
    rfl
  · next low =>
    cases e
    rw [if_neg low]
    rfl

/-! ## Runs of `2 ^ 52` pages and more -/

theorem runEnd_pages_lt {a : Address} {stop : Address} (e : runEnd a n = .ok stop) :
    n < 2 ^ 52 := by
  obtain ⟨bytes, product, -⟩ := Except.bind_eq_ok.1 e
  have := (Word.mul_eq_ok.1 product).1
  dsimp only [bytesPerPage, Word.limit] at this
  omega

/-- Joining makes a run no smaller. -/
theorem le_of_joinBefore {free free' : FreeRuns} {r r' : PageRun}
    (e : joinBefore free r = .ok (free', r')) : r.pages ≤ r'.pages := by
  unfold joinBefore at e
  split at e
  · cases e
    exact Nat.le_refl _
  · obtain ⟨_, -, e⟩ := Except.bind_eq_ok.1 e
    split at e
    · obtain ⟨pages, sum, e⟩ := Except.bind_eq_ok.1 e
      cases e
      obtain ⟨-, rfl⟩ := Word.add_eq_ok.1 sum
      exact Nat.le_add_right ..
    · cases e
      exact Nat.le_refl _

/-- A run of this kind is never given back. -/
theorem release_pages_lt {a : Address} (e : p.release a n = .ok p') : n < 2 ^ 52 := by
  obtain ⟨_, -, e⟩ := Except.bind_eq_ok.1 e
  obtain ⟨⟨free, run⟩, joined, e⟩ := Except.bind_eq_ok.1 e
  obtain ⟨_, joined', -⟩ := Except.bind_eq_ok.1 e
  obtain ⟨stop, ends, -⟩ := Except.bind_eq_ok.1 joined'
  exact Nat.lt_of_le_of_lt (le_of_joinBefore joined) (runEnd_pages_lt ends)

/-- Of the bytes of pages a word can only tell those of the pages modulo `2 ^ 52`. -/
theorem pagesToBytes_wrapped (n : Nat) : pagesToBytes n = n % 2 ^ 52 * bytesPerPage :=
  Nat.mul_mod_mul_right bytesPerPage n (2 ^ 52)

/-! ## What a pool keeps -/

/-- A pool that may have granted runs of any size keeps what it would keep if it had granted their
wrapped runs, but counts all of their pages. -/
structure Overdrawn (p : PagePool) (out : List PageRun) : Prop where
  canonical : Canonical { p with usage := ⟨PageRun.total (PageRun.wrappedRuns out), 0⟩ }
    (PageRun.wrappedRuns out)
  reserved : p.usage.reserved = PageRun.total out
  pos : ∀ r ∈ out, 0 < r.pages

theorem Canonical.recount (c : p.Canonical out) {usage : PageUsage}
    (same : usage.reserved = p.usage.reserved) : Canonical { p with usage } out :=
  { c with reserved := same.trans c.reserved }

/-- A request finds pages from `a` on, which leaves `q` of the pool. They are counted, unless the
count overflows. -/
structure Finds (p : PagePool) (out : List PageRun) (n : Nat) (a : Address) (q : PagePool) :
    Prop where
  acquire_eq : p.acquire n = (p.usage.reserve n).map fun usage => (some a, { q with usage })
  overdrawn : ∀ usage : PageUsage, usage.reserved = n + PageRun.total out →
    Overdrawn { q with usage } (⟨a, n⟩ :: out)
  start : q.start = p.start
  limit : q.limit = p.limit

theorem Finds.acquired {a : Address} {b : Option Address} (f : Finds p out n a q)
    (o : p.Overdrawn out) (e : p.acquire n = .ok (b, p')) :
    b = some a ∧ p'.Overdrawn (⟨a, n⟩ :: out) ∧ p'.start = p.start ∧ p'.limit = p.limit := by
  rw [f.acquire_eq] at e
  cases counted : p.usage.reserve n with
  | error _ =>
    rw [counted] at e
    cases e
  | ok usage =>
    rw [counted] at e
    cases e
    refine ⟨rfl, f.overdrawn usage ?_, f.start, f.limit⟩
    obtain ⟨now, sum, eq⟩ := Except.bind_eq_ok.1 counted
    cases eq
    rw [(Word.add_eq_ok.1 sum).2, o.reserved, Nat.add_comm]

/-- The pages from `a` on are handed out and `q` is left, or the count of all pages overflows. -/
def Grants (p : PagePool) (out : List PageRun) (n : Nat) (a : Address) (q : PagePool) : Prop :=
  p.acquire n = if PageRun.total out + n < Word.limit
    then .ok (some a, { q with usage :=
      ⟨PageRun.total out + n, max p.usage.peak (PageRun.total out + n)⟩ })
    else .error .overflow

theorem Finds.grants {a : Address} (f : Finds p out n a q) (o : p.Overdrawn out) :
    Grants p out n a q := by
  rw [Grants, f.acquire_eq, PageUsage.reserve, Word.add, o.reserved]
  split <;> rfl

namespace Overdrawn

theorem acquire_of_lt (o : p.Overdrawn out) (pos : 0 < n) (lt : n < 2 ^ 52) :
    (p.acquire n = .ok (none, p) ∧ ¬HasRoom p.start p.limit (PageRun.wrappedRuns out) n) ∨
      ∃ a q, Finds p out n a q ∧ PageRun.Within ⟨a, n⟩ p.start p.limit ∧
        ∀ r ∈ PageRun.wrappedRuns out, PageRun.Disjoint ⟨a, n⟩ r := by
  obtain ⟨a, q, e, answer, same, next⟩ := o.canonical.acquire_eq pos lt
  have recounted := acquire_recount e
  cases a with
  | none => exact .inl ⟨recounted, o.canonical.not_hasRoom answer⟩
  | some a =>
    obtain ⟨c, start, limit, -⟩ := next a rfl
    have w := c.packed.within ⟨a, n⟩ (List.mem_append_right _ List.mem_cons_self)
    have le_hi : PageRun.stop ⟨a, n⟩ ≤ p.limit := limit ▸ Nat.le_trans w.le_hi c.cursor_le
    have apart := (List.pairwise_append.1 c.packed.disjoint).2.1
    refine .inr ⟨a, q, ⟨recounted, fun usage counted => ⟨?_, ?_, ?_⟩, start, limit⟩,
      ⟨w.pos, start ▸ w.lo_le, le_hi, w.aligned⟩, (List.pairwise_cons.1 apart).1⟩
    · rw [PageRun.wrappedRuns_cons_of_lt (r := ⟨a, n⟩) pos lt]
      exact c.recount c.reserved.symm
    · rw [PageRun.total_cons]
      exact counted
    · exact List.forall_mem_cons.2 ⟨pos, o.pos⟩

/-- What a request of this kind gets: nothing, if what is left of it does not fit, and else the
cursor. -/
theorem acquire_of_ge (o : p.Overdrawn out) (big : 2 ^ 52 ≤ n) :
    (p.acquire n = .ok (none, p) ∧ p.limit < p.cursor + n % 2 ^ 52 * bytesPerPage) ∨
      (p.cursor + n % 2 ^ 52 * bytesPerPage ≤ p.limit ∧ Finds p out n p.cursor
        { p with cursor := p.cursor + n % 2 ^ 52 * bytesPerPage }) := by
  have pos : 0 < n := Nat.lt_of_lt_of_le (by decide) big
  have checked : require .somePages (0 < n) = .ok () := by
    rw [require, if_pos (decide_eq_true pos)]
  -- a free run lies below the limit, so it has fewer pages
  have none : FreeRuns.firstFit? p.free n = none := by
    refine List.find?_eq_none.2 fun r hr => ?_
    have w := o.canonical.packed.within r (List.mem_append_left _ hr)
    have below := Nat.lt_of_le_of_lt (Nat.le_trans w.le_hi o.canonical.cursor_le)
      o.canonical.limit_lt
    have ends := runEnd_pages_lt (runEnd_eq below)
    simp only [decide_eq_true_eq, Nat.not_le]
    exact Nat.lt_of_lt_of_le ends big
  have order : p.cursor ≤ p.limit := o.canonical.cursor_le
  have room : p.limit - p.cursor < n % 2 ^ 52 * bytesPerPage ↔
      p.limit < p.cursor + n % 2 ^ 52 * bytesPerPage := Nat.sub_lt_iff_lt_add' order
  have served : p.acquire n = if p.limit - p.cursor < n % 2 ^ 52 * bytesPerPage
      then .ok (Option.none, p)
      else do
        let cursor ← Word.add p.cursor (n % 2 ^ 52 * bytesPerPage)
        let usage ← p.usage.reserve n
        return (some p.cursor, { p with cursor, usage }) := by
    rw [acquire, checked, Except.ok_bind, none]
    dsimp only
    rw [distance, if_pos order, Except.ok_bind, pagesToBytes_wrapped]
    rfl
  rcases Nat.lt_or_ge p.limit (p.cursor + n % 2 ^ 52 * bytesPerPage) with less | fits
  · exact .inl ⟨served.trans (if_pos (room.2 less)), less⟩
  · have sum : Word.add p.cursor (n % 2 ^ 52 * bytesPerPage) =
        .ok (p.cursor + n % 2 ^ 52 * bytesPerPage) := by
      rw [Word.add, if_pos (Nat.lt_of_le_of_lt fits o.canonical.limit_lt)]
    refine .inr ⟨fits, ?_, fun usage counted => ⟨?_, ?_, ?_⟩, rfl, rfl⟩
    · rw [served, if_neg (mt room.1 (Nat.not_lt.2 fits)), sum, Except.ok_bind]
      cases p.usage.reserve n <;> rfl
    · rw [PageRun.wrappedRuns_cons]
      split
      · next some =>
        exact o.canonical.of_raise some (o.canonical.raise some fits PageRun.total_cons)
      · next whole =>
        have zero : n % 2 ^ 52 = 0 := Nat.eq_zero_of_not_pos whole
        rw [zero, Nat.zero_mul, Nat.add_zero]
        exact o.canonical
    · rw [PageRun.total_cons]
      exact counted
    · exact List.forall_mem_cons.2 ⟨pos, o.pos⟩

theorem release (o : p.Overdrawn out) {r : PageRun} (hr : r ∈ out)
    (e : p.release r.start r.pages = .ok p') :
    Overdrawn p' (out.erase r) ∧ p'.start = p.start ∧ p'.limit = p.limit := by
  have perm := List.perm_cons_erase hr
  have wrapped : (PageRun.wrappedRuns out).Perm (r :: PageRun.wrappedRuns (out.erase r)) :=
    PageRun.wrappedRuns_cons_of_lt (o.pos r hr) (release_pages_lt e) ▸
      PageRun.wrappedRuns_perm perm
  have total : PageRun.total out = r.pages + PageRun.total (out.erase r) := by
    rw [← PageRun.total_cons]
    exact (perm.map _).sum_eq
  obtain ⟨q, released, c, start, limit, -⟩ := (o.canonical.perm wrapped).release_eq
  have counted : r.pages ≤ p.usage.reserved := by
    rw [o.reserved, total]
    exact Nat.le_add_right ..
  cases e.symm.trans (release_recount released counted)
  refine ⟨⟨c.recount c.reserved.symm, ?_, fun s hs => o.pos s (List.mem_of_mem_erase hs)⟩,
    start, limit⟩
  change p.usage.reserved - r.pages = _
  rw [o.reserved, total, Nat.add_sub_cancel_left]

/-- A request is refused, or finds pages. -/
theorem refused_or_finds (o : p.Overdrawn out) (pos : 0 < n) :
    p.acquire n = .ok (none, p) ∨ ∃ a q, Finds p out n a q := by
  rcases Nat.lt_or_ge n (2 ^ 52) with lt | big
  · exact (o.acquire_of_lt pos lt).imp And.left fun ⟨a, q, f, _⟩ => ⟨a, q, f⟩
  · exact (o.acquire_of_ge big).imp And.left fun ⟨_, f⟩ => ⟨_, _, f⟩

/-- A request that succeeds leaves the pool as it was, or hands out a run. -/
theorem acquired (o : p.Overdrawn out) (pos : 0 < n) {a : Option Address}
    (e : p.acquire n = .ok (a, p')) : (a = none ∧ p' = p) ∨
      ∃ b, a = some b ∧ p'.Overdrawn (⟨b, n⟩ :: out) ∧ p'.start = p.start ∧ p'.limit = p.limit := by
  rcases o.refused_or_finds pos with refused | ⟨b, q, f⟩
  · cases e.symm.trans refused
    exact .inl ⟨rfl, rfl⟩
  · exact .inr ⟨b, f.acquired o e⟩

end Overdrawn

/-! ## Histories -/

/-- A pool of the pages from `start` up to `limit` that has handed out the runs `out`, for requests
of any size. -/
inductive Lending (start limit : Address) : PagePool → List PageRun → Prop
  | fresh {p : PagePool} : ofRange start limit = .ok p → Lending start limit p []
  | acquired {p p' : PagePool} {out : List PageRun} {n : Nat} {a : Address} :
    Lending start limit p out → 0 < n → p.acquire n = .ok (some a, p') →
    Lending start limit p' (⟨a, n⟩ :: out)
  | refused {p p' : PagePool} {out : List PageRun} {n : Nat} :
    Lending start limit p out → 0 < n → p.acquire n = .ok (none, p') → Lending start limit p' out
  | released {p p' : PagePool} {out : List PageRun} {r : PageRun} :
    Lending start limit p out → r ∈ out → p.release r.start r.pages = .ok p' →
    Lending start limit p' (out.erase r)

/-- What a pool keeps at any point of its history. -/
theorem Lending.overdrawn (order : start ≤ limit) (word : limit < Word.limit)
    (run : Lending start limit p out) :
    p.Overdrawn out ∧ p.start = start ∧ p.limit = limit := by
  induction run with
  | fresh e =>
    obtain ⟨aligned, rfl⟩ := History.of_ofRange e
    exact ⟨⟨.fresh word order aligned, rfl, fun _ hr => absurd hr List.not_mem_nil⟩, rfl, rfl⟩
  | acquired _ pos e ih =>
    obtain ⟨o, start_eq, limit_eq⟩ := ih
    rcases o.acquired pos e with ⟨⟨⟩, -⟩ | ⟨_, ⟨⟩, o', start', limit'⟩
    exact ⟨o', start'.trans start_eq, limit'.trans limit_eq⟩
  | refused _ pos e ih =>
    rcases ih.1.acquired pos e with ⟨-, rfl⟩ | ⟨_, ⟨⟩, -⟩
    exact ih
  | released _ hr e ih =>
    obtain ⟨o, start_eq, limit_eq⟩ := ih
    obtain ⟨o', start', limit'⟩ := o.release hr e
    exact ⟨o', start'.trans start_eq, limit'.trans limit_eq⟩

/-- Is a request for `n` pages answered right? It gets pages of the range that no outstanding run
has, or nothing, and then nothing changes. -/
def Answers (p : PagePool) (out : List PageRun) (n : Nat) : Prop :=
  p.acquire n = .ok (none, p) ∨ ∃ a p', p.acquire n = .ok (some a, p') ∧
    PageRun.Within ⟨a, n⟩ p.start p.limit ∧ ∀ r ∈ out, PageRun.Disjoint ⟨a, n⟩ r

namespace Overdrawn

theorem total_lt (o : p.Overdrawn out) (lt : ∀ r ∈ out, r.pages < 2 ^ 52) :
    PageRun.total out < 2 ^ 52 := by
  have outside := (o.canonical.packed.sublist (List.sublist_append_right ..)).total_le
  have cursor : p.cursor < Word.limit :=
    Nat.lt_of_le_of_lt o.canonical.cursor_le o.canonical.limit_lt
  rw [PageRun.wrappedRuns_of_lt o.pos lt] at outside
  dsimp only [bytesPerPage, Word.limit, Address] at outside cursor
  omega

/-- A request for fewer than `2 ^ 52` pages is answered right while no run has more. -/
theorem answers_of_lt (o : p.Overdrawn out) (small : ∀ r ∈ out, r.pages < 2 ^ 52) (pos : 0 < n)
    (lt : n < 2 ^ 52) : Answers p out n := by
  rcases o.acquire_of_lt pos lt with ⟨refused, -⟩ | ⟨a, q, f, within, apart⟩
  · exact .inl refused
  · have counted : PageRun.total out + n < Word.limit := by
      have := o.total_lt small
      dsimp only [Word.limit]
      omega
    have granted := f.grants o
    rw [Grants, if_pos counted] at granted
    rw [PageRun.wrappedRuns_of_lt o.pos small] at apart
    exact .inr ⟨a, _, granted, within, apart⟩

/-- No range has room for `2 ^ 52` pages. -/
theorem not_answers_of_finds (o : p.Overdrawn out) (big : 2 ^ 52 ≤ n) {a : Address}
    (f : Finds p out n a q) : ¬Answers p out n := by
  have granted := f.grants o
  rintro (refused | ⟨b, p', e, within, -⟩)
  · rw [Grants, refused] at granted
    split at granted <;> cases granted
  · have word : p.limit < Word.limit := o.canonical.limit_lt
    have stop : b + n * 4096 ≤ p.limit := within.le_hi
    dsimp only [Word.limit, Address] at word stop b
    omega

theorem answers_iff (o : p.Overdrawn out) (small : ∀ r ∈ out, r.pages < 2 ^ 52) (pos : 0 < n) :
    Answers p out n ↔ n < 2 ^ 52 ∨ p.limit < p.cursor + n % 2 ^ 52 * bytesPerPage := by
  rcases Nat.lt_or_ge n (2 ^ 52) with lt | big
  · exact iff_of_true (o.answers_of_lt small pos lt) (.inl lt)
  · rcases o.acquire_of_ge big with ⟨refused, less⟩ | ⟨fits, f⟩
    · exact iff_of_true (.inl refused) (.inr less)
    · exact iff_of_false (o.not_answers_of_finds big f)
        (not_or.2 ⟨Nat.not_lt.2 big, Nat.not_lt.2 fits⟩)

end Overdrawn

/-- What a request for any number of pages gets, at any point of the history of a pool. Below
`2 ^ 52` pages it gets some that no run took from the range, or is refused because there are none.
From `2 ^ 52` on only what is left of it modulo `2 ^ 52` has to fit above the cursor: it is granted
there, although no range has so many pages. While no such run is out, this is the only way to get
a wrong answer. -/
theorem oversized_requests_wrap (order : start ≤ limit) (word : limit < Word.limit)
    (run : Lending start limit p out) (pos : 0 < n) :
    (n < 2 ^ 52 →
      (p.acquire n = .ok (none, p) ∧ ¬HasRoom start limit (PageRun.wrappedRuns out) n) ∨
        ∃ a q, Grants p out n a q ∧ PageRun.Within ⟨a, n⟩ start limit ∧
          ∀ r ∈ PageRun.wrappedRuns out, PageRun.Disjoint ⟨a, n⟩ r) ∧
      (2 ^ 52 ≤ n →
        (p.acquire n = .ok (none, p) ∧ limit < p.cursor + n % 2 ^ 52 * bytesPerPage) ∨
          (p.cursor + n % 2 ^ 52 * bytesPerPage ≤ limit ∧ Grants p out n p.cursor
            { p with cursor := p.cursor + n % 2 ^ 52 * bytesPerPage })) ∧
      ((∀ r ∈ out, r.pages < 2 ^ 52) →
        (Answers p out n ↔ n < 2 ^ 52 ∨ limit < p.cursor + n % 2 ^ 52 * bytesPerPage)) := by
  obtain ⟨o, rfl, rfl⟩ := run.overdrawn order word
  refine ⟨fun lt => ?_, fun big => ?_, fun small => o.answers_iff small pos⟩
  · exact (o.acquire_of_lt pos lt).imp_right fun ⟨a, q, f, rest⟩ => ⟨a, q, f.grants o, rest⟩
  · exact (o.acquire_of_ge big).imp_right fun ⟨fits, f⟩ => ⟨fits, f.grants o⟩

/-- Of `2 ^ 52 + 1` pages one is cut off a range of four, and then the pool counts more pages than
there are. -/
theorem oversized_requests_wrap_one_left : ∃ p p' : PagePool,
    Lending 0x40000000 0x40004000 p [] ∧ p.acquire (2 ^ 52 + 1) = .ok (some 0x40000000, p') ∧
      p'.cursor = 0x40001000 ∧ p'.usage = ⟨2 ^ 52 + 1, 2 ^ 52 + 1⟩ ∧
      ¬Answers p [] (2 ^ 52 + 1) := by
  have run : Lending 0x40000000 0x40004000 ⟨0x40000000, 0x40004000, 0x40000000, [], {}⟩ [] :=
    .fresh rfl
  obtain ⟨-, wrapped, right⟩ :=
    oversized_requests_wrap (n := 2 ^ 52 + 1) (by decide) (by decide) run (by decide)
  rcases wrapped (by decide) with ⟨-, less⟩ | ⟨-, granted⟩
  · exact absurd less (by decide)
  · rw [Grants, if_pos (by decide)] at granted
    refine ⟨_, _, run, granted, rfl, rfl, fun answers => ?_⟩
    rcases (right nofun).1 answers with lt | less
    · exact absurd lt (by decide)
    · exact absurd less (by decide)

/-- A range of four pages grants `2 ^ 52`. -/
theorem oversized_request_is_granted : ∃ p p' : PagePool,
    Lending 0x40000000 0x40004000 p [] ∧ p.acquire (2 ^ 52) = .ok (some 0x40000000, p') ∧
      p'.usage.reserved = 2 ^ 52 ∧ ¬Answers p [] (2 ^ 52) := by
  have granted : acquire ⟨0x40000000, 0x40004000, 0x40000000, [], {}⟩ (2 ^ 52) =
      .ok (some 0x40000000, ⟨0x40000000, 0x40004000, 0x40000000, [], ⟨2 ^ 52, 2 ^ 52⟩⟩) := rfl
  refine ⟨_, _, .fresh rfl, granted, rfl, ?_⟩
  rintro (refused | ⟨a, p', e, within, -⟩)
  · cases refused.symm.trans granted
  · cases e.symm.trans granted
    exact absurd within.le_hi (by decide)

end PagePool

end DeferredCount
