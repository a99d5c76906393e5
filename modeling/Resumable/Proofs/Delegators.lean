import Resumable.Proofs.Turns

set_option autoImplicit false

/-!
# Delegating to an argument

The body that does nothing but delegate to its argument, for an argument that is a generator.  A fresh
generator of this body that is resumed shares its argument twice, as its delegate and for the time of the
call, and resumes it, one level deeper (`World.asking`).

If the delegate yields, so does the generator, and it is delegating from then on (`resume_of_yield`).  If the
delegate raises, and does not come to its end, the exception passes through the generator, which has
finished then (`resume_of_raise`).
-/

namespace Resumable

variable {e : Engine} {p : Code.Program} {closure v : Value} {a : Activation} {w s t u : World}
  {g i : GeneratorRef} {r : FrameRef} {c : CodeRef} {x : Exception} {rest : List Value} {n : Nat}

/-- A body that delegates to its first argument and returns what the delegation returned. -/
def Code.Program.Delegates (p : Code.Program) : Prop :=
  p.instructions = [.loadFast 0, .yieldFrom, .returnValue]

instance (p : Code.Program) : Decidable p.Delegates :=
  inferInstanceAs (Decidable (_ = _))

/-- A body is a program of a certain kind. -/
def Body.IsProgram (P : Code.Program → Prop) (b : Body) : Prop :=
  ∃ p, b = .program p ∧ P p

instance {P : Code.Program → Prop} [DecidablePred P] (b : Body) : Decidable (b.IsProgram P) :=
  match b with
  | .program p => decidable_of_iff (P p)
      ⟨fun h => ⟨p, rfl, h⟩, fun ⟨_, heq, h⟩ => Body.program.inj heq ▸ h⟩
  | .script _ => .isFalse fun ⟨_, heq, _⟩ => nomatch heq

/-- The frame of this body while it delegates to a generator. -/
def Frame.delegatingTo (c : CodeRef) (i : GeneratorRef) : Frame :=
  { Frame.new c [.generator i] with position := 1, delegate := some (.generator i) }

namespace Engine

/-- A delegation to a generator that has not finished resumes it. -/
theorem send_none (hslot : (w.generator i).frame = some r) :
    e.send i .none w = e.perform (.resume i .none) w := by
  unfold send
  rw [Run.bind_apply]
  simp only [Run.get_apply]
  rw [hslot]
  simp only [Value.isNone, Bool.not_true, Bool.and_false]
  rfl

theorem sendInto_of_yield (hslot : (w.generator i).frame = some r)
    (h : e.perform (.resume i .none) w = .ok v t) :
    e.sendInto (.generator i) .none w = .ok (.item v) t := by
  have hsent : (some <$> e.send i .none : Run World (Option Value)) w = .ok (some v) t := by
    rw [← bind_pure_comp]
    exact Run.bind_ok ((send_none hslot).trans h)
  unfold sendInto
  rw [Run.bind_apply]
  simp only [Run.attempt, hsent]
  rfl

theorem sendInto_of_raise (hslot : (w.generator i).frame = some r)
    (h : e.perform (.resume i .none) w = .error (.raised x) t) (hx : x.kind ≠ .stopIteration) :
    e.sendInto (.generator i) .none w = .error (.raised x) t := by
  have hsent : (some <$> e.send i .none : Run World (Option Value)) w = .error (.raised x) t := by
    rw [← bind_pure_comp]
    exact Run.bind_error ((send_none hslot).trans h)
  unfold sendInto
  rw [Run.bind_apply]
  simp only [Run.attempt, hsent, if_neg hx]
  rfl

end Engine

/-! ## The body -/

namespace Exec

/-- The iterator on top becomes the delegate, which is shared for the time of the call. -/
theorem delegate_of_top (hdelegate : a.frame.delegate = none)
    (hstack : a.frame.stack = .generator i :: rest) (howned : 1 ≤ w.owners (.generator i)) :
    delegate e (a, w) = .ok (.generator i)
      ({ a with frame := { a.frame with stack := rest, delegate := some (.generator i) } },
        w.retain (.generator i)) := by
  have hpopped : pop (a, w) =
      .ok (.generator i) ({ a with frame := { a.frame with stack := rest } }, w) := by
    unfold pop
    simp only [hstack]
  have hinner : owning e (.generator i) (Run.shared (World.getIter (.generator i)))
      ({ a with frame := { a.frame with stack := rest } }, w) =
        .ok (.generator i) ({ a with frame := { a.frame with stack := rest } }, w) := by
    refine Run.ensuring_ok (shared_ok (t := w.retain (.generator i)) rfl _) (shared_ok ?_ _)
    refine Engine.release_retain fun o ho => ?_
    rw [Value.objects, List.mem_singleton] at ho
    exact ho ▸ howned
  unfold delegate
  rw [Run.bind_apply]
  simp only [activation]
  rw [hdelegate]
  exact (Run.bind_ok hpopped).trans ((Run.bind_ok hinner).trans rfl)

/-- The activation while its delegate is asked. -/
def asking (a : Activation) (i : GeneratorRef) (rest : List Value) : Activation where
  frame := { a.frame with
    stack := rest, delegate := some (.generator i), position := (a.counter : Int) - 1 }
  counter := a.counter
  sent := .none

section Asking

variable (hdelegate : a.frame.delegate = none) (hstack : a.frame.stack = .generator i :: rest)
  (howned : 1 ≤ w.owners (.generator i)) (hsent : a.sent = .none)

include hdelegate hstack howned hsent

/-- A delegation of which the iterator is on top asks it for its next item. -/
theorem yieldFrom_of_top :
    yieldFrom e (a, w) = owning e (.generator i) (converse e (.generator i) .none)
      (asking a i rest, w.retain (.generator i)) := by
  rw [yieldFrom, Run.bind_ok (delegate_of_top hdelegate hstack howned)]
  refine Run.ensuring_congr ?_
  rw [← hsent]
  rfl

theorem yieldFrom_of_item
    (hask : e.sendInto (.generator i) .none (w.retain (.generator i)) = .ok (.item v) u)
    (htwo : 2 ≤ u.owners (.generator i)) :
    execute e p closure .yieldFrom (a, w) = .ok (some (.yielded v))
      (asking a i rest, u.setOwners (u.owners (.generator i) - 1) (.generator i)) := by
  have hasked : converse e (.generator i) .none (asking a i rest, w.retain (.generator i)) =
      .ok (.yielded v) (asking a i rest, u) := by
    unfold converse
    rw [Run.bind_apply]
    simp only [Run.attempt, shared_ok hask]
    rfl
  show (some <$> yieldFrom e) (a, w) = _
  rw [← bind_pure_comp]
  refine Run.bind_ok ((yieldFrom_of_top hdelegate hstack howned hsent).trans ?_)
  exact Run.ensuring_ok hasked (shared_ok (Engine.release_of_shared rfl htwo) _)

theorem yieldFrom_of_raise
    (hask : e.sendInto (.generator i) .none (w.retain (.generator i)) = .error (.raised x) u)
    (hthree : 3 ≤ u.owners (.generator i)) :
    execute e p closure .yieldFrom (a, w) = .error (.raised x)
      ({ asking a i rest with frame := (asking a i rest).frame.removeDelegate.1 },
        u.setOwners (u.owners (.generator i) - 2) (.generator i)) := by
  have hdropped : replace e Frame.removeDelegate (asking a i rest, u) =
      .ok () ({ asking a i rest with frame := (asking a i rest).frame.removeDelegate.1 },
        u.setOwners (u.owners (.generator i) - 1) (.generator i)) := by
    have hreleased := Engine.release_of_shared (e := e) (v := .generator i) (o := .generator i)
      (w := u) rfl (by omega)
    rw [← Engine.releaseAll_singleton] at hreleased
    exact shared_ok hreleased _
  have hasked : converse e (.generator i) .none (asking a i rest, w.retain (.generator i)) =
      .error (.raised x)
        ({ asking a i rest with frame := (asking a i rest).frame.removeDelegate.1 },
          u.setOwners (u.owners (.generator i) - 1) (.generator i)) := by
    unfold converse
    rw [Run.bind_apply]
    simp only [Run.attempt, Run.shared, hask]
    exact Run.bind_ok hdropped
  have hforgotten := Engine.release_of_shared (e := e) (v := .generator i) (o := .generator i)
    (w := u.setOwners (u.owners (.generator i) - 1) (.generator i)) rfl
    (by simp only [World.owners_setOwners, if_true]; omega)
  rw [World.owners_setOwners, if_pos rfl, World.setOwners_setOwners, Nat.sub_sub] at hforgotten
  show (some <$> yieldFrom e) (a, w) = _
  rw [← bind_pure_comp]
  refine Run.bind_error ((yieldFrom_of_top hdelegate hstack howned hsent).trans ?_)
  exact Run.ensuring_raised hasked (shared_ok hforgotten _)

end Asking

/-- The activation of the body that has loaded its argument and is to delegate to it. -/
def loaded (c : CodeRef) (i : GeneratorRef) : Activation :=
  ⟨{ Frame.new c [.generator i] with stack := [.generator i] }, 2, .none⟩

/-- The first two instructions of the body: it loads its argument, and delegates to it. -/
theorem run_delegates (hp : p.Delegates) (n : Nat) (c : CodeRef) (i : GeneratorRef) (s : World) :
    run e p closure (n + 2) (⟨.new c [.generator i], 0, .none⟩, s) =
      match Run.attempt (execute e p closure .yieldFrom)
          (loaded c i, s.retain (.generator i)) with
      | .ok (.ok (some suspension)) t => .ok suspension t
      | .ok (.ok none) t => run e p closure n t
      | .ok (.error exception) t => (unwind e exception >>= fun _ => run e p closure n) t
      | .error reason t => .error reason t := by
  have hfirst : p.instructions[0]? = some (.loadFast 0) := by rw [hp]; rfl
  have hsecond : p.instructions[1]? = some .yieldFrom := by rw [hp]; rfl
  rw [run_succ]
  simp only [hfirst]
  have hloaded : Run.attempt (execute e p closure (.loadFast 0))
      (pastInstruction (⟨.new c [.generator i], 0, .none⟩, s)) =
        .ok (.ok none) (⟨{ Frame.new c [.generator i] with stack := [.generator i] }, 1, .none⟩,
          s.retain (.generator i)) := rfl
  rw [hloaded]
  simp only
  rw [run_succ]
  simp only [hsecond]
  rfl

end Exec

namespace Code.Program

variable (closure : Value) (c : CodeRef) (hp : p.Delegates) (howned : 1 ≤ s.owners (.generator i))

include hp howned

/-- The body on a fresh frame, where the argument yields. -/
theorem resume_of_yield (hfuel : 2 ≤ e.fuel)
    (hask : e.sendInto (.generator i) .none ((s.retain (.generator i)).retain (.generator i)) =
      .ok (.item v) u)
    (htwo : 2 ≤ u.owners (.generator i)) :
    p.resume e closure none (.new c [.generator i], s) =
      .ok (.yielded v)
        (.delegatingTo c i, u.setOwners (u.owners (.generator i) - 1) (.generator i)) := by
  obtain ⟨n, hn⟩ : ∃ n, e.fuel = n + 2 := ⟨_, (Nat.sub_add_cancel hfuel).symm⟩
  have howned : 1 ≤ (s.retain (.generator i)).owners (.generator i) := by
    rw [World.owners_retain]
    omega
  have hyielded : Exec.execute e p closure .yieldFrom (Exec.loaded c i, s.retain (.generator i)) = _ :=
    Exec.yieldFrom_of_item rfl rfl howned rfl hask htwo
  rw [resume_apply (le_refl 0)]
  show settle e (Exec.run e p closure e.fuel (⟨.new c [.generator i], 0, .none⟩, s)) = _
  rw [hn, Exec.run_delegates hp]
  simp only [Run.attempt, hyielded]
  rfl

/-- The body on a fresh frame, where the argument raises. -/
theorem resume_of_raise (hfuel : 2 ≤ e.fuel)
    (hask : e.sendInto (.generator i) .none ((s.retain (.generator i)).retain (.generator i)) =
      .error (.raised x) u)
    (hthree : 3 ≤ u.owners (.generator i)) :
    p.resume e closure none (.new c [.generator i], s) =
      .error (.raised (x.pushEntry (u.placeIn c 1)))
        ((Frame.new c [.generator i]).markFinished,
          u.setOwners (u.owners (.generator i) - 2) (.generator i)) := by
  obtain ⟨n, hn⟩ : ∃ n, e.fuel = n + 2 := ⟨_, (Nat.sub_add_cancel hfuel).symm⟩
  have howned : 1 ≤ (s.retain (.generator i)).owners (.generator i) := by
    rw [World.owners_retain]
    omega
  have hraised : Exec.execute e p closure .yieldFrom (Exec.loaded c i, s.retain (.generator i)) = _ :=
    Exec.yieldFrom_of_raise rfl rfl howned rfl hask hthree
  -- the counter is past the delegating instruction
  have hunwound := Exec.unwind_unhandled (e := e) (x := x)
    (w := u.setOwners (u.owners (.generator i) - 2) (.generator i))
    (a := ⟨{ Frame.new c [.generator i] with position := 1 }, 2, .none⟩) rfl
  rw [resume_apply (le_refl 0)]
  show settle e (Exec.run e p closure e.fuel (⟨.new c [.generator i], 0, .none⟩, s)) = _
  rw [hn, Exec.run_delegates hp]
  simp only [Run.attempt, hraised]
  exact congrArg (settle e) (Run.bind_error hunwound)

end Code.Program

/-! ## The generator -/

namespace World

/-- A generator that has not been resumed yet, with what its body was given. -/
structure Fresh (w : World) (g : GeneratorRef) (r : FrameRef) (args : List Value) : Prop where
  idle : (w.generator g).running = false
  slot : (w.generator g).frame = some r
  frame : w.frame? r = some (.new (w.generator g).code args)

/-- Two generators never share a frame. -/
def Apart (w : World) : Prop :=
  ∀ g h r, (w.generator g).frame = some r → (w.generator h).frame = some r → g = h

/-- The world in which a fresh generator asks the one that it delegates to. -/
def asking (w : World) (g : GeneratorRef) (r : FrameRef) (i : GeneratorRef) : World :=
  ((w.underway g r).retain (.generator i)).retain (.generator i)

/-- The world in which a frame that holds nothing but a generator has an owner less. -/
def forgetting (w : World) (r : FrameRef) (i : GeneratorRef) : World :=
  if 2 ≤ w.owners (.frame r) then w.setOwners (w.owners (.frame r) - 1) (.frame r)
  else ((w.setOwners 0 (.frame r)).setFrame r none).setOwners (w.owners (.generator i) - 1)
    (.generator i)

section Fields

variable {j : GeneratorRef} {q : FrameRef} {o : Object} {f : Frame}

theorem generator_asking :
    (w.asking g r i).generator j =
      if g = j then { w.generator g with running := true } else w.generator j := by
  rw [← generator_underway (r := r)]
  simp [asking, retain]

theorem frame_asking : (w.asking g r i).frame? q = if r = q then none else w.frame? q := by
  rw [← frame_underway (g := g)]
  simp [asking, retain]

theorem owners_asking :
    (w.asking g r i).owners o =
      w.owners o + (if .frame r = o then 1 else 0) + if .generator i = o then 2 else 0 := by
  rw [asking, owners_retain, owners_retain, owners_underway, Value.objects, Bag.of_singleton]
  split <;> split <;> omega

@[simp] theorem codes_asking : (w.asking g r i).codes = w.codes := by
  have hsame : ∀ (n : Nat) (w : World), (w.setOwners n (.generator i)).codes = w.codes := fun _ _ => rfl
  simp only [asking, retain, Value.objects, addOwners, List.foldl_cons, List.foldl_nil, hsame]
  rfl

@[simp] theorem code_asking (c : CodeRef) : (w.asking g r i).code c = w.code c := by
  rw [code, codes_asking]
  rfl

@[simp] theorem thread_asking :
    (w.asking g r i).thread = { w.thread with depth := w.thread.depth + 1 } := by
  simp only [asking, retain, thread_addOwners]
  rfl

theorem depth_asking : (w.asking g r i).thread.depth = w.thread.depth + 1 := by
  rw [thread_asking]

theorem limit_asking : (w.asking g r i).thread.limit = w.thread.limit := by
  rw [thread_asking]

@[simp] theorem generator_forgetting : (w.forgetting r i).generator j = w.generator j := by
  unfold forgetting
  split <;> simp

theorem frame_forgetting (hne : r ≠ q) : (w.forgetting r i).frame? q = w.frame? q := by
  unfold forgetting
  split <;> simp [hne]

theorem owners_forgetting (hframe : o ≠ .frame r) (hgenerator : o ≠ .generator i) :
    (w.forgetting r i).owners o = w.owners o := by
  unfold forgetting
  split <;> simp [hframe.symm, hgenerator.symm]

theorem owners_le_forgetting :
    w.owners (.generator i) ≤ (w.forgetting r i).owners (.generator i) + 1 := by
  unfold forgetting
  split <;> simp; omega

@[simp] theorem thread_forgetting : (w.forgetting r i).thread = w.thread := by
  unfold forgetting
  split <;> rfl

@[simp] theorem codes_forgetting : (w.forgetting r i).codes = w.codes := by
  unfold forgetting
  split <;> rfl

end Fields

end World

theorem World.Fresh.atRest {args : List Value} (h : w.Fresh g r args) :
    w.AtRest g r (.new (w.generator g).code args) where
  idle := h.idle
  slot := h.slot
  frame := h.frame
  pending := rfl
  input := rfl
  unfinished := rfl

section Fresh

variable {args : List Value} {f : Frame} (hfresh : w.Fresh g r args)
  (hroom : w.thread.depth < w.thread.limit)

include hfresh hroom

/-- A fresh generator whose body yields. -/
theorem resume_of_yielded
    (hbody : (w.code (w.generator g).code).resume e (w.generator g).closure none
      (.new (w.generator g).code args, w.underway g r) = .ok (.yielded v) (f, u))
    (htwo : 2 ≤ u.owners (.frame r)) :
    e.resume g .none w = .ok v
      ((u.settled g r f).left.setOwners (u.owners (.frame r) - 1) (.frame r)) := by
  have howners : (u.settled g r f).left.owners (.frame r) = u.owners (.frame r) := by simp
  have hforgotten := Engine.release_of_shared (e := e) (v := .frame r) (o := .frame r)
    (w := (u.settled g r f).left) rfl (by rw [howners]; exact htwo)
  rw [howners] at hforgotten
  rw [resume_of_turnsOut (.yielded hfresh.idle hfresh.slot hroom
    (resumeFrame_of_yielded (v := .none) hfresh.atRest hbody)), World.forgottenAfter, hfresh.slot]
  exact Run.ensuring_ok rfl ((congrFun (Engine.releaseAll_singleton e (.frame r)) _).trans hforgotten)

/-- A fresh generator whose body raises and finishes its frame. -/
theorem resume_of_raised
    (hbody : (w.code (w.generator g).code).resume e (w.generator g).closure none
      (.new (w.generator g).code args, w.underway g r) = .error (.raised x) (f, u))
    (hfinished : f.markFinished = f) (hdelegate : f.delegate = none)
    (hslot : (u.generator g).frame = some r) (htwo : 2 ≤ u.owners (.frame r))
    (hforget : e.release (.frame r) (u.ended g r f) = .ok () t) :
    e.resume g .none w = .error (.raised x) t := by
  rw [resume_of_turnsOut (.raised hfresh.idle hfresh.slot hroom
    (resumeFrame_of_raised (v := .none) hfresh.atRest hslot hfinished hdelegate htwo hbody)),
    World.forgottenAfter, hfresh.slot]
  exact Run.ensuring_raised rfl ((congrFun (Engine.releaseAll_singleton e (.frame r)) _).trans hforget)

end Fresh

/-! ## A fresh generator of this body -/

namespace World

/-- A fresh generator of a body that delegates to its argument, which is a generator. -/
structure DelegatesTo (w : World) (g : GeneratorRef) (r : FrameRef) (i : GeneratorRef) : Prop where
  fresh : w.Fresh g r [.generator i]
  body : (w.code (w.generator g).code).body.IsProgram Code.Program.Delegates

/-- The world after such a generator passed on what its delegate yielded. -/
def passedOn (u : World) (g : GeneratorRef) (r : FrameRef) (c : CodeRef) (i : GeneratorRef) : World :=
  ((u.setOwners (u.owners (.generator i) - 1) (.generator i)).settled g r
    (.delegatingTo c i)).left.setOwners (u.owners (.frame r) - 1) (.frame r)

/-- The world after an exception of its delegate passed through such a generator. -/
def passedThrough (u : World) (g : GeneratorRef) (r : FrameRef) (c : CodeRef) (i : GeneratorRef) :
    World :=
  ((u.setOwners (u.owners (.generator i) - 2) (.generator i)).ended g r
    (Frame.new c [.generator i]).markFinished).forgetting r i

end World

/-- The last owner of a frame forgets it, and it forgets what it holds. -/
theorem release_frame {k : Nat} {f : Frame} (hf : w.frame? r = some f)
    (hholds : f.owned = [.generator i]) (howned : 1 ≤ w.owners (.frame r))
    (htwo : 2 ≤ w.owners (.generator i)) :
    (Machine.engine (k + 1)).release (.frame r) w = .ok () (w.forgetting r i) := by
  unfold World.forgetting
  split
  · next hshared => exact Engine.release_of_shared rfl hshared
  · next hlast =>
      have hone : w.owners (.frame r) = 1 := by omega
      have hforgotten := Engine.release_of_shared (e := Machine.engine k) (v := .generator i)
        (w := (w.setOwners 0 (.frame r)).setFrame r none) rfl (by simpa using htwo)
      rw [← Engine.releaseAll_singleton, ← hholds] at hforgotten
      have hreclaimed : (Machine.engine (k + 1)).perform (.reclaim (.frame r))
          (w.setOwners 0 (.frame r)) =
          .ok .none (((w.setOwners 0 (.frame r)).setFrame r none).setOwners
            (w.owners (.generator i) - 1) (.generator i)) := by
        refine Run.bind_ok (a := ()) ?_
        show (Machine.engine k).releaseAll
          ((((w.setOwners 0 (.frame r)).frame? r).map Frame.owned).getD [])
          ((w.setOwners 0 (.frame r)).setFrame r none) = _
        rw [World.frame_setOwners, hf, Option.map_some, Option.getD_some, hforgotten]
        simp
      show Run.ensuring ((Machine.engine (k + 1)).releaseObject (.frame r)) (pure ()) w = _
      rw [Machine.ensuring_pure]
      unfold Engine.releaseObject
      rw [hone]
      simp only [hreclaimed]

section Delegating

variable {q : FrameRef} {k : Nat} (h : w.DelegatesTo g r i)
  (hroom : w.thread.depth < w.thread.limit) (howned : 1 ≤ w.owners (.generator i))
  (hslot : ((w.asking g r i).generator i).frame = some q)

include h hroom howned hslot

/-- The delegate yields, and so does the generator. -/
theorem World.DelegatesTo.resume_of_yield (hfuel : 2 ≤ e.fuel)
    (hask : e.perform (.resume i .none) (w.asking g r i) = .ok v u)
    (htwo : 2 ≤ u.owners (.generator i)) (hframe : 2 ≤ u.owners (.frame r)) :
    e.resume g .none w = .ok v (u.passedOn g r (w.generator g).code i) := by
  obtain ⟨p, hbody, hp⟩ := h.body
  have hbegun : 1 ≤ (w.underway g r).owners (.generator i) := by
    rw [World.owners_underway]
    omega
  have hyielded := Code.Program.resume_of_yield (w.generator g).closure (w.generator g).code hp hbegun
    hfuel (Engine.sendInto_of_yield hslot hask) htwo
  rw [← CodeObject.resume_of_program hbody] at hyielded
  have hresumed := resume_of_yielded h.fresh hroom hyielded (by simpa using hframe)
  simpa [World.passedOn] using hresumed

/-- The delegate raises, and the exception passes through the generator. -/
theorem World.DelegatesTo.resume_of_raise (hfuel : 2 ≤ k + 1)
    (hask : Machine.perform (k + 1) (.resume i .none) (w.asking g r i) = .error (.raised x) u)
    (hx : x.kind ≠ .stopIteration) (hfour : 4 ≤ u.owners (.generator i))
    (hframe : 2 ≤ u.owners (.frame r)) (hkept : (u.generator g).frame = some r) :
    (Machine.engine (k + 1)).resume g .none w =
      .error (.raised (x.pushEntry (u.placeIn (w.generator g).code 1)))
        (u.passedThrough g r (w.generator g).code i) := by
  obtain ⟨p, hbody, hp⟩ := h.body
  have hbegun : 1 ≤ (w.underway g r).owners (.generator i) := by
    rw [World.owners_underway]
    omega
  have hraised := Code.Program.resume_of_raise (w.generator g).closure (w.generator g).code hp hbegun
    (e := Machine.engine (k + 1)) hfuel (Engine.sendInto_of_raise hslot hask hx) (by omega)
  rw [← CodeObject.resume_of_program hbody] at hraised
  refine resume_of_raised h.fresh hroom hraised rfl rfl (by simpa using hkept)
    (by simpa using hframe) ?_
  refine release_frame (f := (Frame.new (w.generator g).code [.generator i]).markFinished) ?_ rfl ?_ ?_
  · rw [World.frame_ended, if_pos rfl]
  · rw [World.owners_ended, if_pos rfl, World.owners_setOwners, if_neg nofun]
    omega
  · rw [World.owners_ended, if_neg nofun, World.owners_setOwners, if_pos rfl]
    omega

end Delegating

end Resumable
