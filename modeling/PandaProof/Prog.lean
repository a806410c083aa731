import Mathlib.Logic.Basic

/-!
# Programs that change a state and may stop

Sequential code is modelled as a function from a state to a result and the state it
leaves behind.  It returns a value or stops early with an error; what it did to the
state before stopping stays done.  `Wp` is its weakest precondition, with one condition
for the normal return and one for the early stop, and one rule per way of building a
program.
-/
namespace Panda

/-- Code over the state `S` that returns an `A` or stops with an `E`. -/
def Prog (S E A : Type) : Type := S → Except E A × S

namespace Prog
variable {S E E' A B : Type}

instance : Monad (Prog S E) where
  pure a := fun s => (.ok a, s)
  bind p f := fun s =>
    match p s with
    | (.ok a, s') => f a s'
    | (.error e, s') => (.error e, s')

/-- The state itself. -/
def get : Prog S E S := fun s => (.ok s, s)

/-- A view of the state. -/
def gets (f : S → A) : Prog S E A := fun s => (.ok (f s), s)

def modify (f : S → S) : Prog S E Unit := fun s => (.ok (), f s)

/-- Stop. -/
def throw (e : E) : Prog S E A := fun s => (.error e, s)

/-- What has been worked out without the state. -/
def ofExcept (r : Except E A) : Prog S E A := fun s => (r, s)

/-- Run `p`; where it stops, go on with `handler`. -/
def tryCatch (p : Prog S E A) (handler : E → Prog S E' A) : Prog S E' A := fun s =>
  match p s with
  | (.ok a, s') => (.ok a, s')
  | (.error e, s') => handler e s'

/-- Stop with `f e` where `p` stops with `e`. -/
def mapError (f : E → E') (p : Prog S E A) : Prog S E' A := tryCatch p fun e => throw (f e)

/-- Run code over a part of the state. -/
def zoom {T : Type} (part : S → T) (replace : T → S → S) (p : Prog T E A) : Prog S E A :=
  fun s => ((p (part s)).1, replace (p (part s)).2 s)

/-- From `s`, the program returns with `Q` or stops with `R`.  Only the rules below look
inside, so that a goal about a program is never unfolded into its run. -/
@[irreducible] def Wp (p : Prog S E A) (s : S) (Q : A → S → Prop) (R : E → S → Prop) : Prop :=
  match p s with
  | (.ok a, s') => Q a s'
  | (.error e, s') => R e s'

section Run

variable {p : Prog S E B} {f : B → Prog S E A} {s s' : S}

theorem bind_of_ok {b : B} (h : p s = (.ok b, s')) : (p >>= f) s = f b s' := by
  simp [bind, h]

theorem bind_of_error {e : E} (h : p s = (.error e, s')) : (p >>= f) s = (.error e, s') := by
  simp [bind, h]

theorem bind_of_eq {q : Prog S E B} (h : p s = q s') : (p >>= f) s = (q >>= f) s' := by
  simp [bind, h]

variable {handler : E → Prog S E' B}

theorem tryCatch_of_ok {b : B} (h : p s = (.ok b, s')) : tryCatch p handler s = (.ok b, s') := by
  simp [tryCatch, h]

theorem tryCatch_of_error {e : E} (h : p s = (.error e, s')) :
    tryCatch p handler s = handler e s' := by
  simp [tryCatch, h]

end Run

section Rules

variable {Q Q' : A → S → Prop} {R R' : E → S → Prop} {s : S}

@[simp] theorem wp_pure {a : A} : Wp (pure a : Prog S E A) s Q R ↔ Q a s := by
  unfold Wp
  rfl

@[simp] theorem wp_bind {p : Prog S E B} {f : B → Prog S E A} :
    Wp (p >>= f) s Q R ↔ Wp p s (fun b s' => Wp (f b) s' Q R) R := by
  unfold Wp
  rcases hp : p s with ⟨e | b, s'⟩
  · rw [bind_of_error hp]
  · rw [bind_of_ok hp]

@[simp] theorem wp_get {Q : S → S → Prop} : Wp (get : Prog S E S) s Q R ↔ Q s s := by
  unfold Wp
  rfl

@[simp] theorem wp_gets {f : S → A} : Wp (gets f : Prog S E A) s Q R ↔ Q (f s) s := by
  unfold Wp
  rfl

@[simp] theorem wp_modify {Q : Unit → S → Prop} {f : S → S} :
    Wp (modify f : Prog S E Unit) s Q R ↔ Q () (f s) := by
  unfold Wp
  rfl

@[simp] theorem wp_throw {e : E} : Wp (throw e : Prog S E A) s Q R ↔ R e s := by
  unfold Wp
  rfl

variable {p : Prog S E A}

@[simp] theorem wp_tryCatch {handler : E → Prog S E' A} {R : E' → S → Prop} :
    Wp (tryCatch p handler) s Q R ↔ Wp p s Q fun e s' => Wp (handler e) s' Q R := by
  unfold Wp
  rcases hp : p s with ⟨e | b, s'⟩
  · rw [tryCatch_of_error hp]
  · rw [tryCatch_of_ok hp]

@[simp] theorem wp_mapError {f : E → E'} {R : E' → S → Prop} :
    Wp (mapError f p) s Q R ↔ Wp p s Q fun e s' => R (f e) s' := by
  simp [mapError, wp_tryCatch, wp_throw]

@[simp] theorem wp_zoom {T : Type} {part : S → T} {replace : T → S → S} {p : Prog T E A} :
    Wp (zoom part replace p) s Q R ↔
      Wp p (part s) (fun a t => Q a (replace t s)) fun e t => R e (replace t s) := by
  unfold Wp
  rcases hp : p (part s) with ⟨e | a, t⟩
  · simp [zoom, hp]
  · simp [zoom, hp]

/-- **The rule of consequence.** -/
theorem Wp.mono (h : Wp p s Q R) (hQ : ∀ a s', Q a s' → Q' a s')
    (hR : ∀ e s', R e s' → R' e s') : Wp p s Q' R' := by
  unfold Wp at h ⊢
  split at h
  · exact hQ _ _ h
  · exact hR _ _ h

/-- Two facts about one run. -/
theorem Wp.and (h : Wp p s Q R) (h' : Wp p s Q' R') :
    Wp p s (fun a s' => Q a s' ∧ Q' a s') (fun e s' => R e s' ∧ R' e s') := by
  unfold Wp at h h' ⊢
  split at h <;> simp_all

theorem Wp.of_ok (h : Wp p s Q R) {a : A} {s' : S} (hp : p s = (.ok a, s')) : Q a s' := by
  unfold Wp at h
  rw [hp] at h
  exact h

theorem Wp.of_error (h : Wp p s Q R) {e : E} {s' : S} (hp : p s = (.error e, s')) : R e s' := by
  unfold Wp at h
  rw [hp] at h
  exact h

/-- What holds of the state left behind, however the program ended. -/
theorem wp_of_state {P : S → Prop} (h : P (p s).2) :
    Wp p s (fun _ s' => P s') fun _ s' => P s' := by
  unfold Wp
  split
  · rename_i hp
    rwa [hp] at h
  · rename_i hp
    rwa [hp] at h

theorem Wp.state {P : S → Prop} (h : Wp p s (fun _ s' => P s') fun _ s' => P s') : P (p s).2 := by
  unfold Wp at h
  split at h
  · rename_i hp
    rwa [hp]
  · rename_i hp
    rwa [hp]

theorem wp_of_all (hQ : ∀ a s', Q a s') (hR : ∀ e s', R e s') : Wp p s Q R := by
  unfold Wp
  split
  · exact hQ _ _
  · exact hR _ _

/-- A condition on how the program ends, read off the run. -/
theorem wp_iff_ok : Wp p s Q (fun _ _ => False) ↔ ∃ a s', p s = (.ok a, s') ∧ Q a s' := by
  unfold Wp
  split
  · rename_i a s' h
    exact ⟨fun hq => ⟨a, s', h, hq⟩, fun ⟨b, t, hb, hq⟩ => by simp_all⟩
  · rename_i e s' h
    exact ⟨False.elim, fun ⟨b, t, hb, hq⟩ => by simp_all⟩

end Rules

theorem bind_assoc {C : Type} (p : Prog S E A) (f : A → Prog S E B) (g : B → Prog S E C) :
    (p >>= f) >>= g = p >>= fun a => f a >>= g := by
  funext s
  rcases hp : p s with ⟨e | a, s'⟩
  · rw [bind_of_error hp, bind_of_error (bind_of_error hp)]
  rw [bind_of_ok hp]
  rcases hf : f a s' with ⟨e | b, _⟩
  · rw [bind_of_error hf, bind_of_error ((bind_of_ok hp).trans hf)]
  · rw [bind_of_ok hf, bind_of_ok ((bind_of_ok hp).trans hf)]

/-- Code over a part of the state, one piece after the other. -/
theorem zoom_bind {T : Type} {part : S → T} {replace : T → S → S}
    (hget : ∀ t s, part (replace t s) = t)
    (hput : ∀ t t' s, replace t' (replace t s) = replace t' s) (p : Prog T E B)
    (f : B → Prog T E A) :
    zoom part replace (p >>= f) = zoom part replace p >>= fun b => zoom part replace (f b) := by
  funext s
  rcases hp : p (part s) with ⟨e | b, t⟩
  · have hzoom : zoom part replace p s = (.error e, replace t s) := by simp [zoom, hp]
    rw [bind_of_error hzoom, zoom, bind_of_error hp]
  · have hzoom : zoom part replace p s = (.ok b, replace t s) := by simp [zoom, hp]
    rw [bind_of_ok hzoom, zoom, zoom, bind_of_ok hp, hget, hput]

/-! ## Code that moves along a relation -/

/-- However it ends, the code leaves the state related to the one it found. -/
def Within (R : S → S → Prop) (p : Prog S E A) : Prop :=
  ∀ s, Wp p s (fun _ s' => R s s') (fun _ s' => R s s')

section Within

variable {R R' : S → S → Prop} {p : Prog S E B} {f : B → Prog S E A}

theorem within_pure (hrefl : ∀ s, R s s) (a : A) : Within R (pure a : Prog S E A) := fun s =>
  wp_pure.mpr (hrefl s)

theorem within_throw (hrefl : ∀ s, R s s) (e : E) : Within R (throw e : Prog S E A) := fun s =>
  wp_throw.mpr (hrefl s)

theorem Within.bind (htrans : ∀ {a b c}, R a b → R b c → R a c) (hp : Within R p)
    (hf : ∀ b, Within R (f b)) : Within R (p >>= f) := by
  intro s
  rw [wp_bind]
  refine (hp s).mono ?_ fun _ _ h => h
  intro b s' h
  exact (hf b s').mono (fun _ _ h' => htrans h h') fun _ _ h' => htrans h h'

theorem Within.mono (h : ∀ {a b}, R a b → R' a b) (hp : Within R p) : Within R' p := fun s =>
  (hp s).mono (fun _ _ hr => h hr) fun _ _ hr => h hr

end Within

end Prog
end Panda
