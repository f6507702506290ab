import DeferredCount.Heap.Basic

/-!
# Running operations on a heap

An operation of `HeapM` run on a heap ends with a result and a heap, or with a fault. The lemmas
here run the primitive operations and take a sequence of operations apart, forwards (`bind_of_ok`)
when each part is known to succeed, and backwards (`bind_eq_ok`) when only the whole is.
-/

namespace DeferredCount

namespace Except

variable {α β : Type}

@[simp] theorem ok_bind (a : α) (f : α → Except Fault β) : (.ok a >>= f : Except Fault β) = f a :=
  rfl

@[simp] theorem error_bind (e : Fault) (f : α → Except Fault β) :
    (.error e >>= f : Except Fault β) = .error e :=
  rfl

@[simp] theorem pure_eq (a : α) : (pure a : Except Fault α) = .ok a := rfl

@[simp] theorem throw_eq (e : Fault) : (throw e : Except Fault α) = .error e := rfl

theorem bind_eq_ok {x : Except Fault α} {f : α → Except Fault β} {b : β} :
    x >>= f = .ok b ↔ ∃ a, x = .ok a ∧ f a = .ok b := by
  cases x with
  | ok a => simp
  | error e => simp

theorem mapM_of_ok {f : α → Except Fault β} {g : α → β} (as : List α)
    (e : ∀ a ∈ as, f a = .ok (g a)) : as.mapM f = .ok (as.map g) := by
  induction as with
  | nil => rfl
  | cons a as ih =>
    rw [List.mapM_cons, e a List.mem_cons_self, ok_bind,
      ih fun b hb => e b (List.mem_cons_of_mem _ hb)]
    rfl

end Except

namespace HeapM

variable {α β : Type}

theorem bind_of_ok {x : HeapM α} {f : α → HeapM β} {h k : Heap} {a : α} (e : x h = .ok a k) :
    (x >>= f) h = f a k := by
  simp only [bind, EStateM.bind, e]

theorem bind_eq_ok {x : HeapM α} {f : α → HeapM β} {h h' : Heap} {b : β} :
    (x >>= f) h = .ok b h' ↔ ∃ a k, x h = .ok a k ∧ f a k = .ok b h' := by
  constructor
  · intro e
    cases hx : x h with
    | ok a k =>
      rw [bind_of_ok hx] at e
      exact ⟨a, k, rfl, e⟩
    | error f k =>
      simp only [bind, EStateM.bind, hx] at e
      cases e
  · rintro ⟨a, k, hx, hf⟩
    rw [bind_of_ok hx, hf]

theorem bind_of_error {x : HeapM α} {f : α → HeapM β} {h k : Heap} {e : Fault}
    (failed : x h = .error e k) : (x >>= f) h = .error e k := by
  simp only [bind, EStateM.bind, failed]

theorem bind_congr {x y : HeapM α} {f : α → HeapM β} {h k : Heap} (e : x h = y k) :
    (x >>= f) h = (y >>= f) k := by
  simp only [bind, EStateM.bind, e]

theorem bind_eq_error {x : HeapM α} {f : α → HeapM β} {h h' : Heap} {e : Fault} :
    (x >>= f) h = .error e h' ↔
      x h = .error e h' ∨ ∃ a k, x h = .ok a k ∧ f a k = .error e h' := by
  cases hx : x h with
  | ok a k =>
    rw [bind_of_ok hx]
    refine ⟨fun failed => .inr ⟨a, k, rfl, failed⟩, ?_⟩
    rintro (failed | ⟨_, _, same, failed⟩)
    · cases failed
    · cases same
      exact failed
  | error g k => simp [bind_of_error hx]

@[simp] theorem pure_apply (a : α) (h : Heap) : (pure a : HeapM α) h = .ok a h := rfl

@[simp] theorem pure_bind_apply (a : α) (f : α → HeapM β) (h : Heap) :
    ((pure a : HeapM α) >>= f) h = f a h := rfl

@[simp] theorem throw_apply (e : Fault) (h : Heap) : (throw e : HeapM α) h = .error e h := rfl

@[simp] theorem get_bind_apply (f : Heap → HeapM β) (h : Heap) :
    ((get : HeapM Heap) >>= f) h = f h h :=
  rfl

@[simp] theorem modify_apply (g : Heap → Heap) (h : Heap) :
    (modify g : HeapM PUnit) h = .ok ⟨⟩ (g h) := rfl

@[simp] theorem modify_bind_apply (g : Heap → Heap) (f : PUnit → HeapM β) (h : Heap) :
    ((modify g : HeapM PUnit) >>= f) h = f ⟨⟩ (g h) := rfl

@[simp] theorem modifyGet_apply (g : Heap → α × Heap) (h : Heap) :
    (modifyGet g : HeapM α) h = .ok (g h).1 (g h).2 := rfl

@[simp] theorem modifyGet_bind_apply (g : Heap → α × Heap) (f : α → HeapM β) (h : Heap) :
    ((modifyGet g : HeapM α) >>= f) h = f (g h).1 (g h).2 := rfl

@[simp] theorem bind_assoc_apply {γ : Type} (x : HeapM α) (f : α → HeapM β) (g : β → HeapM γ)
    (h : Heap) : ((x >>= f) >>= g) h = (x >>= fun a => f a >>= g) h := by
  rw [bind_assoc]

@[simp] theorem lift_ok (a : α) : HeapM.lift (.ok a) = (pure a : HeapM α) := rfl

@[simp] theorem lift_error (e : Fault) : (HeapM.lift (.error e) : HeapM α) = throw e := rfl

@[simp] theorem liftM_eq (x : Except Fault α) : (liftM x : HeapM α) = HeapM.lift x := rfl

theorem lift_eq_ok {x : Except Fault α} {h h' : Heap} {a : α} :
    HeapM.lift x h = .ok a h' ↔ x = .ok a ∧ h' = h := by
  cases x with
  | ok b => simp [eq_comm]
  | error e => simp

/-- A computation without effects at the start of a sequence. -/
theorem lift_bind_eq_ok {x : Except Fault α} {f : α → HeapM β} {h h' : Heap} {b : β} :
    ((liftM x : HeapM α) >>= f) h = .ok b h' ↔ ∃ a, x = .ok a ∧ f a h = .ok b h' := by
  rw [liftM_eq, bind_eq_ok]
  constructor
  · rintro ⟨a, k, lifted, run⟩
    obtain ⟨e, same⟩ := lift_eq_ok.1 lifted
    exact ⟨a, e, same ▸ run⟩
  · rintro ⟨a, e, run⟩
    exact ⟨a, h, lift_eq_ok.2 ⟨e, rfl⟩, run⟩

@[simp] theorem emit_apply (e : Event) (h : Heap) :
    emit e h = .ok () { h with log := e :: h.log } := rfl

@[simp] theorem emit_bind_apply (e : Event) (f : Unit → HeapM β) (h : Heap) :
    (emit e >>= f) h = f () { h with log := e :: h.log } := rfl

theorem inspect_of_ok {f : Memory → Except Fault α} {h : Heap} {a : α} (e : f h.memory = .ok a) :
    inspect f h = .ok a h := by
  simp [inspect, e]

theorem change_of_ok {f : Memory → Except Fault Memory} {h : Heap} {m : Memory}
    (e : f h.memory = .ok m) : change f h = .ok () { h with memory := m } := by
  simp [change, e]

/-- Turns that leave the heap as it is. -/
theorem mapM_of_ok {f : α → HeapM β} {g : α → β} {h : Heap} (as : List α)
    (e : ∀ a ∈ as, f a h = .ok (g a) h) : as.mapM f h = .ok (as.map g) h := by
  induction as with
  | nil => rfl
  | cons a as ih =>
    rw [List.mapM_cons, bind_of_ok (e a List.mem_cons_self),
      bind_of_ok (ih fun b hb => e b (List.mem_cons_of_mem _ hb))]
    rfl

theorem mapM_cons_eq_ok {f : α → HeapM β} {a : α} {as : List α} {bs : List β} {h h' : Heap} :
    (a :: as).mapM f h = .ok bs h' ↔
      ∃ b cs k, f a h = .ok b k ∧ as.mapM f k = .ok cs h' ∧ bs = b :: cs := by
  rw [List.mapM_cons]
  constructor
  · intro e
    obtain ⟨b, k, first, e⟩ := bind_eq_ok.1 e
    obtain ⟨cs, _, rest, e⟩ := bind_eq_ok.1 e
    cases e
    exact ⟨b, cs, k, first, rest, rfl⟩
  · rintro ⟨b, cs, k, first, rest, rfl⟩
    rw [bind_of_ok first, bind_of_ok rest]
    rfl

theorem mapM_append_eq_ok {f : α → HeapM β} {as as' : List α} {bs : List β} {h h' : Heap} :
    (as ++ as').mapM f h = .ok bs h' ↔
      ∃ cs cs' k, as.mapM f h = .ok cs k ∧ as'.mapM f k = .ok cs' h' ∧ bs = cs ++ cs' := by
  rw [List.mapM_append]
  constructor
  · intro e
    obtain ⟨cs, k, first, e⟩ := bind_eq_ok.1 e
    obtain ⟨cs', _, rest, e⟩ := bind_eq_ok.1 e
    cases e
    exact ⟨cs, cs', k, first, rest, rfl⟩
  · rintro ⟨cs, cs', k, first, rest, rfl⟩
    rw [bind_of_ok first, bind_of_ok rest]
    rfl

/-- A list of turns keeps an invariant that speaks of the results so far and of the turns to
come. -/
theorem mapM_of_step {f : α → HeapM β} {I : Heap → List β → List α → Prop}
    (step : ∀ h done a todo, I h done (a :: todo) →
      ∃ b h', f a h = .ok b h' ∧ I h' (done ++ [b]) todo)
    (todo : List α) {h : Heap} (done : List β) (start : I h done todo) :
    ∃ bs h', todo.mapM f h = .ok bs h' ∧ I h' (done ++ bs) [] := by
  induction todo generalizing h done with
  | nil => exact ⟨[], h, rfl, by simpa using start⟩
  | cons a todo ih =>
    obtain ⟨b, h₁, e₁, inv⟩ := step h done a todo start
    obtain ⟨bs, h', e, inv⟩ := ih _ inv
    refine ⟨b :: bs, h', ?_, by simpa using inv⟩
    rw [List.mapM_cons, bind_of_ok e₁, bind_of_ok e]
    rfl

/-- The first turn of a loop. -/
theorem forIn_cons_of_ok {f : α → HeapM Unit} {a : α} {as : List α} {h k : Heap}
    (e : f a h = .ok () k) :
    (forIn (a :: as) PUnit.unit fun x _ => do
      f x
      pure (ForInStep.yield PUnit.unit) : HeapM PUnit) h =
    (forIn as PUnit.unit fun x _ => do
      f x
      pure (ForInStep.yield PUnit.unit) : HeapM PUnit) k := by
  have turn : (f a >>= fun _ => pure (ForInStep.yield PUnit.unit)) h = .ok (.yield ⟨⟩) k :=
    bind_of_ok e
  rw [List.forIn_cons, bind_of_ok turn]

theorem filterAuxM_of_ok {p : α → HeapM Bool} {q : α → Bool} {h : Heap} (vs found : List α)
    (e : ∀ v ∈ vs, p v h = .ok (q v) h) :
    vs.filterAuxM p found h = .ok ((vs.filter q).reverse ++ found) h := by
  induction vs generalizing found with
  | nil => rfl
  | cons v vs ih =>
    rw [List.filterAuxM, bind_of_ok (e v List.mem_cons_self),
      ih _ fun w hw => e w (List.mem_cons_of_mem _ hw), List.filter_cons]
    cases q v <;> simp

theorem filterM_of_ok {p : α → HeapM Bool} {q : α → Bool} {h : Heap} {vs : List α}
    (e : ∀ v ∈ vs, p v h = .ok (q v) h) : vs.filterM p h = .ok (vs.filter q) h := by
  rw [List.filterM, bind_of_ok (filterAuxM_of_ok vs [] e)]
  simp

/-- Does an operation succeed with a result and a heap of which `p` holds? -/
def holds (x : HeapM α) (p : α → Heap → Bool) (h : Heap) : Bool :=
  match x h with
  | .ok a h' => p a h'
  | .error _ _ => false

theorem holds_iff {x : HeapM α} {p : α → Heap → Bool} {h : Heap} :
    x.holds p h = true ↔ ∃ a h', x h = .ok a h' ∧ p a h' = true := by
  rw [holds]
  cases x h with
  | ok a h' =>
    refine ⟨fun e => ⟨a, h', rfl, e⟩, ?_⟩
    rintro ⟨_, _, ⟨⟩, e⟩
    exact e
  | error f h' => simp

/-- Does an operation end with a fault? -/
def failsWith (x : HeapM α) (f : Fault) (h : Heap) : Bool :=
  match x h with
  | .ok .. => false
  | .error g _ => g = f

theorem failsWith_iff {x : HeapM α} {f : Fault} {h : Heap} :
    x.failsWith f h = true ↔ ∃ h', x h = .error f h' := by
  rw [failsWith]
  cases x h with
  | ok a h' => simp
  | error g h' => simp

end HeapM

end DeferredCount
