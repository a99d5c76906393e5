import Resumable.Proofs.Independence
import Resumable.Proofs.Turns

set_option autoImplicit false

/-!
# Counting

A body that counts from zero up to its argument, with a loop that yields the number it has come to.  Every
resume but the first one forgets what was sent, adds one and goes once around the loop
(`Code.Program.resume_counter`), so the number of calls tells what the frame holds
(`Frame.afterCalls`).  The sum never leaves the range of the integers, since it is at most the argument.

A generator of this body that was called a number of times (`World.Counted`) is found with that many calls
by the next one, which adds one to them unless it is refused a level (`World.Counted.turn`).  From this
follows what comes of all calls (`counter_counts`).
-/

namespace Resumable

variable {e : Engine} {v closure : Value} {w t u : World} {g : GeneratorRef} {r : FrameRef} {c : CodeRef}
  {n i : Int64} {k m : Nat} {position : Int}

/-! ## The body -/

namespace Code

/-- `i = 0; while i < n: yield i; i = i + 1; return i`, for the argument `n`. -/
def counter : Source where
  name := "counter"
  args := ["n"]
  filename := Source.defaultFilename
  labels := 2
  directives := [.loadConst (.int 0), .storeFast "i", .bind 0, .loadFast "i", .loadFast "n",
    .emit .lessThan, .jumpIfFalse 1, .loadFast "i", .emit .yieldValue, .emit .popTop, .loadFast "i",
    .loadConst (.int 1), .emit .add, .storeFast "i", .jump 0, .bind 1, .loadFast "i",
    .emit .returnValue]

namespace Program

/-- The body that counts up to its argument. -/
def counter : Program where
  instructions := [.loadConst 0, .storeFast 1, .loadFast 1, .loadFast 0, .lessThan, .jumpIfFalse 8,
    .loadFast 1, .yieldValue, .popTop, .loadFast 1, .loadConst 1, .add, .storeFast 1, .jump (-12),
    .loadFast 1, .returnValue]
  localNames := ["n", "i"]
  argCount := 1
  constants := [.int 0, .int 1]

theorem assemble_counter : Code.counter.assembler.assemble = .ok counter := by decide

end Program

end Code

/-! ## One turn of the loop -/

/-- The frame of the body once `i` has a value. -/
def Frame.counting (c : CodeRef) (position : Int) (n i : Int64) (stack : List Value) : Frame :=
  { Frame.new c [.int n, .int i] with position := position, stack := stack }

/-- How the loop goes on: it yields `i`, or the body is done. -/
def Suspension.counting (n i : Int64) : Suspension :=
  if i.toInt < n.toInt then .yielded (.int i) else .returned (.int i)

/-- The frame that is left then. -/
def Frame.counted (c : CodeRef) (n i : Int64) : Frame :=
  .counting c (if i.toInt < n.toInt then 8 else Frame.finished) n i []

namespace Exec

open Code.Program

/-- An operation on two values that it is defined on. -/
theorem binary_of_ok {a : Activation} {left right : Value} {rest : List Value}
    {op : Value → Value → Except OperandFault Value} {message : String → String → String}
    (hstack : a.frame.stack = right :: left :: rest) (h : op left right = .ok v) :
    binary e op message (a, w) =
      .ok () ({ a with frame := { a.frame with stack := v :: rest } }, w) := by
  obtain ⟨⟨_, _, _, _, _, _, _, _, _⟩, _, _⟩ := a
  cases hstack
  refine (Run.bind_ok (m := pop) (a := right) rfl).trans ?_
  refine (Run.bind_ok (m := pop.onInterruption (release e right)) (a := left) rfl).trans ?_
  rw [h]
  rfl

/-- A falsy value on top is popped, and the run goes on elsewhere. -/
theorem jumpIfFalse_of_false {p : Code.Program} {a : Activation} {rest : List Value} {offset : Int}
    (hstack : a.frame.stack = .bool false :: rest) (h : Lands a offset) (w : World) :
    execute e p closure (.jumpIfFalse offset) (a, w) =
      .ok none ({ a with
        frame := { a.frame with stack := rest }, counter := (a.counter + offset).toNat }, w) := by
  have hjumped := jump_of_lands (a := { a with frame := { a.frame with stack := rest } })
    ⟨h.start, h.room⟩ w
  obtain ⟨⟨_, _, _, _, _, _, _, _, _⟩, _, _⟩ := a
  cases hstack
  exact Run.bind_ok (f := fun _ => pure none) hjumped

section Loop

variable (e : Engine) (closure : Value) (c : CodeRef) (position : Int) (n i : Int64) (m : Nat) (w : World)

/-- A run of the body at an instruction. -/
def counting (counter : Nat) (stack : List Value) : Activation × World :=
  (⟨.counting c position n i stack, counter, .none⟩, w)

/-- The variables are compared, and `i` is less. -/
theorem run_less (h : i.toInt < n.toInt) :
    run e counter closure (m + 6) (counting c position n i w 2 []) =
      .ok (.yielded (.int i)) (counting c 8 n i w 8 []) :=
  calc
    _ = run e counter closure (m + 5) (counting c position n i w 3 [.int i]) := run_next rfl rfl
    _ = run e counter closure (m + 4) (counting c position n i w 4 [.int n, .int i]) := run_next rfl rfl
    _ = run e counter closure (m + 3) (counting c position n i w 5 [.bool true]) :=
        run_next (i := .lessThan) rfl (by
          exact Run.bind_ok (binary_of_ok rfl (by rw [Value.lessThan, decide_eq_true h])))
    _ = run e counter closure (m + 2) (counting c position n i w 6 []) := run_next rfl rfl
    _ = run e counter closure (m + 1) (counting c position n i w 7 [.int i]) := run_next rfl rfl
    _ = .ok (.yielded (.int i)) (counting c 8 n i w 8 []) := run_last rfl rfl

/-- The variables are compared, and `i` is not less. -/
theorem run_notLess (h : ¬ i.toInt < n.toInt) :
    run e counter closure (m + 6) (counting c position n i w 2 []) =
      .ok (.returned (.int i)) (counting c Frame.finished n i w 16 []) :=
  calc
    _ = run e counter closure (m + 5) (counting c position n i w 3 [.int i]) := run_next rfl rfl
    _ = run e counter closure (m + 4) (counting c position n i w 4 [.int n, .int i]) := run_next rfl rfl
    _ = run e counter closure (m + 3) (counting c position n i w 5 [.bool false]) :=
        run_next (i := .lessThan) rfl (by
          exact Run.bind_ok (binary_of_ok rfl (by rw [Value.lessThan, decide_eq_false h])))
    _ = run e counter closure (m + 2) (counting c position n i w 14 []) := 
        run_next rfl (jumpIfFalse_of_false rfl
          ⟨show (0 : Int) ≤ 6 + 8 by decide, show (6 + 8 : Int) ≤ Frame.greatestPosition by decide⟩ w)
    _ = run e counter closure (m + 1) (counting c position n i w 15 [.int i]) := run_next rfl rfl
    _ = .ok (.returned (.int i)) (counting c Frame.finished n i w 16 []) := run_last rfl rfl

/-- `i` is set to the next number. -/
theorem run_increment {j : Int64} (h : j.toInt = i.toInt + 1) :
    run e counter closure (m + 5) (counting c position n i w 9 []) =
      run e counter closure m (counting c position n j w 2 []) :=
  calc
    _ = run e counter closure (m + 4) (counting c position n i w 10 [.int i]) := run_next rfl rfl
    _ = run e counter closure (m + 3) (counting c position n i w 11 [.int 1, .int i]) := run_next rfl rfl
    _ = run e counter closure (m + 2) (counting c position n i w 12 [.int j]) :=
        run_next (i := .add) rfl (by
          exact Run.bind_ok (binary_of_ok rfl (by
            rw [Value.add, Value.ofInt?, show (1 : Int64).toInt = 1 from rfl, ← h, int64?_toInt])))
    _ = run e counter closure (m + 1) (counting c position n j w 13 []) := run_next rfl rfl
    _ = run e counter closure m (counting c position n j w 2 []) := run_next rfl rfl

end Loop

end Exec

namespace Code.Program

/-- One turn of the loop from the comparison on, and the end of the resume. -/
theorem settle_loop (e : Engine) (closure : Value) (c : CodeRef) (position : Int) (n i : Int64) (m : Nat)
    (w : World) :
    settle e (Exec.run e counter closure (m + 6) (Exec.counting c position n i w 2 [])) =
      .ok (.counting n i) (.counted c n i, w) := by
  unfold Suspension.counting Frame.counted
  split
  · next hless =>
      rw [Exec.run_less e closure c position n i m w hless]
      rfl
  · next hless =>
      rw [Exec.run_notLess e closure c position n i m w hless]
      rfl

/-- The first resume sets `i` to zero. -/
theorem resume_counter_first (closure : Value) (c : CodeRef) (n : Int64) (w : World)
    (hfuel : 12 ≤ e.fuel) :
    counter.resume e closure none (.new c [.int n], w) =
      .ok (.counting n 0) (.counted c n 0, w) := by
  obtain ⟨m, hm⟩ : ∃ m, e.fuel = m + 8 := ⟨_, (Nat.sub_add_cancel (le_trans (by decide) hfuel)).symm⟩
  have hrun : Exec.run e counter closure (m + 8) (⟨.new c [.int n], 0, .none⟩, w) =
      Exec.run e counter closure (m + 6) (Exec.counting c 0 n 0 w 2 []) :=
    calc
      _ = Exec.run e counter closure (m + 7)
            (⟨{ Frame.new c [.int n] with stack := [.int 0] }, 1, .none⟩, w) := Exec.run_next rfl rfl
      _ = _ := Exec.run_next rfl rfl
  rw [resume_apply (le_refl 0)]
  show settle e (Exec.run e counter closure e.fuel (⟨.new c [.int n], 0, .none⟩, w)) = _
  rw [hm, hrun, settle_loop]

/-- The others forget what was sent, and set `i` to the next number. -/
theorem resume_counter_next (closure : Value) (c : CodeRef) (n : Int64) (w : World) {j : Int64}
    (hfuel : 12 ≤ e.fuel) (hj : j.toInt = i.toInt + 1) (howned : ∀ o ∈ v.objects, 1 ≤ w.owners o) :
    counter.resume e closure none ((Frame.counting c 8 n i []).given v, w.retain v) =
      .ok (.counting n j) (.counted c n j, w) := by
  obtain ⟨m, hm⟩ : ∃ m, e.fuel = m + 12 := ⟨_, (Nat.sub_add_cancel hfuel).symm⟩
  have hrun : Exec.run e counter closure (m + 12) (Exec.counting c 8 n i (w.retain v) 8 [v]) =
      Exec.run e counter closure (m + 6) (Exec.counting c 8 n j w 2 []) :=
    calc
      _ = Exec.run e counter closure (m + 11) (Exec.counting c 8 n i w 9 []) :=
          Exec.run_next (i := .popTop) rfl
            (Run.bind_ok (a := ()) (Exec.shared_ok (Engine.release_retain howned) _))
      _ = _ := Exec.run_increment e closure c 8 n i (m + 6) w hj
  rw [resume_given (k := 7) rfl rfl rfl rfl, hm]
  exact (congrArg (settle e) hrun).trans (settle_loop ..)

end Code.Program

/-! ## The calls -/

/-- The frame of the body after a number of calls. -/
def Frame.afterCalls (c : CodeRef) (n : Int64) : Nat → Frame
  | 0 => .new c [.int n]
  | k + 1 => .counting c 8 n (Int64.ofInt k) []

/-- What comes of the call after a number of calls: the numbers below `n` in order, then the end of the
iteration with the number that was reached, and from then on the end of the iteration with nothing. -/
def countingOutcome (n : Int64) (k : Nat) : Except Exception Value :=
  if k < n.toInt.toNat then .ok (.int (Int64.ofInt k))
  else if k = n.toInt.toNat then .error (.stopIterationWith (.int (Int64.ofInt (max n.toInt 0))))
  else .error .stopIteration

/-- The numbers up to `n` are 64-bit integers. -/
theorem toInt_ofInt_of_le (hk : k ≤ n.toInt.toNat) : (Int64.ofInt k).toInt = k := by
  have hmost := Int64.toInt_le n
  have hmax : Int64.maxValue.toInt = 2 ^ 63 - 1 := rfl
  rw [hmax] at hmost
  exact Int64.toInt_ofInt_of_le (by omega) (by omega)

theorem Code.Program.resume_counter (closure : Value) (c : CodeRef) (w : World) (hfuel : 12 ≤ e.fuel)
    (hk : k ≤ n.toInt.toNat) (howned : ∀ o ∈ v.objects, 1 ≤ w.owners o) (hfirst : k = 0 → v = .none) :
    counter.resume e closure none ((Frame.afterCalls c n k).given v, w.retain v) =
      .ok (.counting n (Int64.ofInt k)) (.counted c n (Int64.ofInt k), w) := by
  cases k with
  | zero =>
      rw [hfirst rfl]
      exact resume_counter_first closure c n w hfuel
  | succ k =>
      refine resume_counter_next closure c n w hfuel ?_ howned
      rw [toInt_ofInt_of_le hk, toInt_ofInt_of_le (Nat.le_of_succ_le hk)]
      push_cast
      rfl

namespace World

/-- A generator of the body that was called a number of times and is suspended. -/
structure CountsOn (w : World) (g : GeneratorRef) (r : FrameRef) (n : Int64) (k : Nat) : Prop where
  rest : w.AtRest g r (.afterCalls (w.generator g).code n k)
  body : (w.code (w.generator g).code).body = .program .counter
  owned : 1 ≤ w.owners (.frame r)

/-- A generator of the body that was called a number of times.  The call after the last number is the
last one that finds a frame. -/
inductive Counted (w : World) (g : GeneratorRef) (n : Int64) (k : Nat) : Prop where
  | counting {r : FrameRef} (h : w.CountsOn g r n k) (hk : k ≤ n.toInt.toNat)
  | finished (hidle : (w.generator g).running = false) (hslot : (w.generator g).frame = none)
      (hk : n.toInt.toNat < k)

theorem Counted.spared (h : w.Counted g n k) (hspares : w.Spares u g) : u.Counted g n k := by
  cases h with
  | finished hidle hslot hk =>
      exact .finished (hspares.generator ▸ hidle) (hspares.generator ▸ hslot) hk
  | @counting r h hk =>
      obtain ⟨hframe, howned⟩ := hspares.frame r h.rest.slot
      refine .counting ⟨⟨?_, ?_, ?_, ?_, ?_, ?_⟩, ?_, howned⟩ hk
      · rw [hspares.generator, h.rest.idle]
      · rw [hspares.generator, h.rest.slot]
      · rw [hframe, h.rest.frame, hspares.generator]
      · rw [hspares.generator]; exact h.rest.pending
      · rw [hspares.generator]; exact h.rest.input
      · rw [hspares.generator]; exact h.rest.unfinished
      · rw [hspares.generator, hspares.code, h.body]

/-- A call of a generator that counts. -/
theorem CountsOn.turn (h : w.CountsOn g r n k) (hk : k ≤ n.toInt.toNat) (hfuel : 12 ≤ e.fuel)
    (hroom : w.thread.depth < w.thread.limit) (howned : ∀ o ∈ v.objects, 1 ≤ w.owners o)
    (hfirst : k = 0 → v = .none) :
    ∃ t, t.thread = w.thread ∧ e.TurnsOut g v w (countingOutcome n k) t ∧ t.Counted g n (k + 1) := by
  have hbody : e.bodyOf w g
      ((Frame.afterCalls (w.generator g).code n k).given v, (w.underway g r).retain v) =
        .ok (.counting n (Int64.ofInt k)) (.counted (w.generator g).code n (Int64.ofInt k), w.underway g r) := by
    rw [Engine.bodyOf, CodeObject.resume_of_program h.body]
    refine Code.Program.resume_counter _ _ _ hfuel hk (fun o ho => ?_) hfirst
    rw [owners_underway]
    have := howned o ho
    omega
  have hi := toInt_ofInt_of_le hk
  have hslot : ((w.underway g r).generator g).frame = some r := by
    rw [generator_underway, if_pos rfl]
    exact h.rest.slot
  have htwo : 2 ≤ (w.underway g r).owners (.frame r) := by
    rw [owners_underway, if_pos rfl]
    have := h.owned
    omega
  by_cases hless : k < n.toInt.toNat
  · -- the body yields, and is suspended
    have hyields : (Int64.ofInt k).toInt < n.toInt := by omega
    rw [Suspension.counting, if_pos hyields, Frame.counted, if_pos hyields] at hbody
    have houtcome : countingOutcome n k = .ok (.int (Int64.ofInt k)) := if_pos hless
    have hturn := Engine.TurnsOut.yielded h.rest.idle h.rest.slot hroom
      (resumeFrame_of_yielded h.rest hbody)
    refine ⟨_, ?_, houtcome ▸ hturn, ?_⟩
    · rw [thread_left, thread_settled, leave_underway]
    have hgenerator : ((w.underway g r).settled g r
        (.counting (w.generator g).code 8 n (Int64.ofInt k) [])).left.generator g = w.generator g := by
      rw [generator_left, generator_settled, if_pos rfl, generator_underway, if_pos rfl, ← h.rest.idle]
    refine .counting (r := r) ⟨⟨?_, ?_, ?_, rfl, rfl, rfl⟩, ?_, ?_⟩ hless
    · rw [hgenerator, h.rest.idle]
    · rw [hgenerator, h.rest.slot]
    · rw [hgenerator, frame_left, frame_settled, if_pos rfl]
      rfl
    · rw [hgenerator]
      exact h.body
    · rw [owners_left, owners_settled]
      omega
  · -- the body returns, and the generator lets go of its frame
    have hends : ¬ (Int64.ofInt k).toInt < n.toInt := by omega
    have hlast : k = n.toInt.toNat := by omega
    have hreached : (Int64.ofInt k) = Int64.ofInt (max n.toInt 0) := congrArg _ (by omega)
    rw [Suspension.counting, if_neg hends, Frame.counted, if_neg hends] at hbody
    have houtcome : countingOutcome n k = .error (.stopIterationWith (.int (Int64.ofInt k))) := by
      rw [countingOutcome, if_neg hless, if_pos hlast, hreached]
    have hturn := Engine.TurnsOut.raised h.rest.idle h.rest.slot hroom
      (resumeFrame_of_returned h.rest hslot rfl rfl htwo hbody)
    refine ⟨_, ?_, houtcome ▸ hturn, .finished ?_ ?_ (by omega)⟩
    · rw [thread_left, thread_setOwners, thread_frameless, thread_settled, leave_underway]
    all_goals
      rw [generator_left, generator_setOwners, frameless, generator_setGenerator, if_pos rfl]
    rw [generator_settled, if_pos rfl]

/-- A generator that was refused a level is as it was. -/
theorem spares_retain_frame (hslot : (w.generator g).frame = some r) (howned : 1 ≤ w.owners (.frame r)) :
    w.Spares (w.retain (.frame r)) g where
  generator := generator_addOwners ..
  frame s hs := by
    obtain rfl := Option.some.inj (hslot.symm.trans hs)
    refine ⟨frame_addOwners .., ?_⟩
    rw [owners_retain]
    omega
  code := by
    rw [code, code, retain, codes_addOwners]

/-- Nobody is there to receive a value before the first call. -/
theorem CountsOn.accepts (h : w.CountsOn g r n 0) (haccepts : w.Accepts g v) : v = .none := by
  refine haccepts.resolve_right fun hstarted => ?_
  have hframe := hstarted r h.rest.slot
  rw [isJustStarted, h.rest.frame] at hframe
  cases hframe

/-- After the first call every value can be sent. -/
theorem Counted.accepts (h : w.Counted g n (k + 1)) (v : Value) : w.Accepts g v := by
  refine .inr fun r hslot => ?_
  cases h with
  | finished _ hnone => simp [hslot] at hnone
  | counting h =>
      obtain rfl := Option.some.inj (h.rest.slot.symm.trans hslot)
      rw [isJustStarted, h.rest.frame]
      rfl

/-- A call is refused where there is a frame to resume and no level is left. -/
def Full (w : World) (g : GeneratorRef) : Prop :=
  (w.generator g).frame.isSome ∧ w.thread.limit ≤ w.thread.depth

instance (w : World) (g : GeneratorRef) : Decidable (w.Full g) :=
  inferInstanceAs (Decidable (_ ∧ _))

/-- A call counts, unless it is refused a level. -/
theorem Counted.turn (h : w.Counted g n k) (hfuel : 12 ≤ e.fuel)
    (howned : ∀ o ∈ v.objects, 1 ≤ w.owners o) (haccepts : w.Accepts g v) :
    ∃ t, t.thread = w.thread ∧
      (w.Full g → e.TurnsOut g v w (.error .recursionError) t ∧ t.Counted g n k) ∧
      (¬ w.Full g → e.TurnsOut g v w (countingOutcome n k) t ∧ t.Counted g n (k + 1)) := by
  cases h with
  | finished hidle hslot hk =>
      refine ⟨w, rfl, fun hfull => by simp [Full, hslot] at hfull,
        fun _ => ⟨?_, .finished hidle hslot (by omega)⟩⟩
      rw [countingOutcome, if_neg (by omega), if_neg (by omega)]
      exact .finished hidle hslot
  | @counting r h hk =>
      have hslot := h.rest.slot
      by_cases hfull : w.thread.limit ≤ w.thread.depth
      · refine ⟨w.retain (.frame r), thread_addOwners .., fun _ => ⟨.refused h.rest.idle hslot hfull, ?_⟩,
          fun hroom => absurd ⟨by simp [hslot], hfull⟩ hroom⟩
        exact (Counted.counting h hk).spared (spares_retain_frame hslot h.owned)
      · obtain ⟨t, hthread, hturn⟩ := h.turn hk hfuel (by omega) howned fun hfirst =>
          (hfirst ▸ h).accepts haccepts
        exact ⟨t, hthread, fun hfull' => absurd hfull'.2 hfull, fun _ => hturn⟩

/-- A generator of the body that was just made. -/
theorem counted_newGenerator {w₀ : World} (hbody : (w.code c).body = .program .counter)
    (hnew : w.newGenerator c [.int n] closure = (g, w₀)) : w₀.Counted g n 0 := by
  have hsolo := solo_newGenerator hnew
  have hgenerator : w₀.generator g = ⟨c, closure, some ⟨w.frames.size⟩, false⟩ :=
    congrArg Solo.generator hsolo
  have hcell : w₀.frames.get w.frames.size = ⟨1, some (.new c [.int n])⟩ := congrArg Solo.cell hsolo
  refine .counting (r := ⟨w.frames.size⟩) ⟨⟨?_, ?_, ?_, rfl, rfl, rfl⟩, ?_, ?_⟩ (Nat.zero_le _)
  · rw [hgenerator]
  · rw [hgenerator]
  · rw [hgenerator]
    exact congrArg Cell.content hcell
  · rw [hgenerator, code, codes_newGenerator hnew]
    exact hbody
  · exact (congrArg Cell.owners hcell).ge

end World

/-- The calls that were not refused a level. -/
def answersIn (outcomes : List (Except Exception Value)) : List (Except Exception Value) :=
  outcomes.filter (· ≠ .error .recursionError)

theorem countingOutcome_ne_recursionError (n : Int64) (k : Nat) :
    countingOutcome n k ≠ .error .recursionError := by
  have hkind : ∀ x : Exception, x.kind = .stopIteration →
      (.error x : Except Exception Value) ≠ .error .recursionError := by
    rintro x hx heq
    cases heq
    cases hx
  unfold countingOutcome
  split
  · nofun
  · split
    · exact hkind _ rfl
    · exact hkind _ rfl

/-- What comes of the calls, and how far the generator has come. -/
theorem Dialogue.counted {outcomes : List (Except Exception Value)} (h : Dialogue 12 g w outcomes u)
    (hw : w.Counted g n 0) :
    u.Counted g n (answersIn outcomes).length ∧
      answersIn outcomes = (List.range (answersIn outcomes).length).map (countingOutcome n) := by
  induction h with
  | start => exact ⟨hw, rfl⟩
  | meanwhile _ hspares ih => exact ⟨ih.1.spared hspares, ih.2⟩
  | @call outcomes outcome m v s t _ hfuel howned haccepts hturn ih =>
      obtain ⟨hcounted, hanswers⟩ := ih
      obtain ⟨t', _, hfull, hroom⟩ := hcounted.turn (e := Machine.engine m) hfuel howned haccepts
      by_cases hs : s.Full g
      · obtain ⟨rfl, rfl⟩ := hturn.unique (hfull hs).1
        have hsame : answersIn (outcomes ++ [.error .recursionError]) = answersIn outcomes := by
          simp [answersIn]
        rw [hsame]
        exact ⟨(hfull hs).2, hanswers⟩
      · obtain ⟨rfl, rfl⟩ := hturn.unique (hroom hs).1
        have hmore : answersIn (outcomes ++ [countingOutcome n (answersIn outcomes).length]) =
            answersIn outcomes ++ [countingOutcome n (answersIn outcomes).length] := by
          simp [answersIn, countingOutcome_ne_recursionError]
        rw [hmore, List.length_append, List.length_singleton, List.range_succ, List.map_append,
          ← hanswers]
        exact ⟨(hroom hs).2, rfl⟩

/-- A generator of the body counts up to its argument.

However it is resumed and sent values, with anything going on meanwhile that leaves it alone, the calls
that are not refused a level give the numbers below `n` in order, then raise the end of the iteration with
the greater of `n` and zero, and then with nothing.  Every further call comes to that, too, whatever is
sent, unless it is refused a level; it gives the level back, and afterwards it only forgets its
arguments. -/
theorem counter_counts :
    Code.counter.assembler.assemble = .ok Code.Program.counter ∧
    ∀ {w w₀ : World} {g : GeneratorRef} {c : CodeRef} {n : Int64} {closure : Value},
      (w.code c).body = .program .counter → w.newGenerator c [.int n] closure = (g, w₀) →
      ∀ {outcomes : List (Except Exception Value)} {u : World}, Dialogue 12 g w₀ outcomes u →
        answersIn outcomes = (List.range (answersIn outcomes).length).map (countingOutcome n) ∧
        ∀ {m : Nat} {v : Value}, 12 ≤ m → (∀ o ∈ v.objects, 1 ≤ u.owners o) → u.Accepts g v →
          ∃ t, t.thread = u.thread ∧
            let outcome : Except Exception Value :=
              if u.Full g then .error .recursionError else countingOutcome n (answersIn outcomes).length
            (Machine.engine m).TurnsOut g v u outcome t ∧
              Concludes m ((Machine.engine (m + 1)).send g v) u outcome (u.forgottenAfter g v) t ∧
              (v = .none →
                Concludes m ((Machine.engine (m + 1)).next g) u outcome (u.forgottenAfter g v) t) := by
  refine ⟨Code.Program.assemble_counter, fun {w w₀ g c n closure} hbody hnew {outcomes u} h => ?_⟩
  obtain ⟨hcounted, hanswers⟩ := h.counted (World.counted_newGenerator hbody hnew)
  refine ⟨hanswers, fun {m v} hfuel howned haccepts => ?_⟩
  obtain ⟨t, hthread, hfull, hroom⟩ := hcounted.turn (e := Machine.engine m) hfuel howned haccepts
  have hturn : (Machine.engine m).TurnsOut g v u
      (if u.Full g then .error .recursionError else countingOutcome n (answersIn outcomes).length) t := by
    split
    · next hu => exact (hfull hu).1
    · next hu => exact (hroom hu).1
  refine ⟨t, hthread, hturn, hturn.send haccepts, fun hnone => ?_⟩
  subst hnone
  exact hturn.next

/-! ### A counter up to one -/

/-- A world without generators that has a number of levels and the code of the counter. -/
def counterWorld (limit : Nat) : World :=
  { World.new limit .collecting with
    codes := [⟨"counter", Code.Source.defaultFilename, .program .counter⟩] }

/-- A new generator of the body in that world. -/
def newCounter (limit : Nat) (n : Int64) : World :=
  ((counterWorld limit).newGenerator ⟨0⟩ [.int n] .none).2

/-- With one level it gives zero, then ends with one, and then with nothing. -/
theorem counter_counts_one :
    ∃ u, Dialogue 12 ⟨0⟩ (newCounter 1 1) [.ok (.int 0), .error (.stopIterationWith (.int 1))] u ∧
      ∃ t, (Machine.engine 12).TurnsOut ⟨0⟩ .none u (.error .stopIteration) t := by
  have hnew : (counterWorld 1).newGenerator ⟨0⟩ [.int 1] .none = (⟨0⟩, newCounter 1 1) := rfl
  have hcounts : ∀ {outcomes u}, Dialogue 12 ⟨0⟩ (newCounter 1 1) outcomes u → _ :=
    counter_counts.2 rfl hnew
  have hthread : (newCounter 1 1).thread = ⟨0, 1, 0, .collecting⟩ := rfl
  have hroom : ∀ {u : World}, u.thread = (newCounter 1 1).thread → ¬ u.Full ⟨0⟩ := fun {u} hu hfull => by
    have := hfull.2
    rw [hu, hthread] at this
    exact absurd this (by decide)
  have hcall : ∀ {outcomes u} (v : Value), v.objects = [] → u.Accepts ⟨0⟩ v →
      Dialogue 12 ⟨0⟩ (newCounter 1 1) outcomes u → u.thread = (newCounter 1 1).thread →
        ∃ t, t.thread = (newCounter 1 1).thread ∧ (Machine.engine 12).TurnsOut ⟨0⟩ v u
          (countingOutcome 1 (answersIn outcomes).length) t := by
    intro outcomes u v hv haccepts h hu
    obtain ⟨t, ht, hturn, -⟩ := (hcounts h).2 (m := 12) (v := v) le_rfl (by simp [hv]) haccepts
    rw [if_neg (hroom hu)] at hturn
    exact ⟨t, ht.trans hu, hturn⟩
  obtain ⟨t₁, ht₁, hturn₁⟩ := hcall .none rfl (.inl rfl) .start rfl
  have hone : Dialogue 12 ⟨0⟩ (newCounter 1 1) [.ok (.int 0)] t₁ :=
    .call .start le_rfl (List.forall_mem_nil _) (.inl rfl) hturn₁
  have hstarted := (hone.counted (World.counted_newGenerator rfl hnew)).1.accepts
    (.str "ignored")
  obtain ⟨t₂, ht₂, hturn₂⟩ := hcall (.str "ignored") rfl hstarted hone ht₁
  have htwo : Dialogue 12 ⟨0⟩ (newCounter 1 1) [.ok (.int 0), .error (.stopIterationWith (.int 1))] t₂ :=
    .call hone le_rfl (List.forall_mem_nil _) hstarted hturn₂
  obtain ⟨t₃, -, hturn₃⟩ := hcall .none rfl (.inl rfl) htwo ht₂
  exact ⟨t₂, htwo, t₃, hturn₃⟩

/-- Without a level the first call is refused. -/
theorem counter_refused :
    ¬ ∀ {w w₀ : World} {g : GeneratorRef} {c : CodeRef} {n : Int64} {closure : Value},
      (w.code c).body = .program .counter → w.newGenerator c [.int n] closure = (g, w₀) →
      ∀ {outcomes : List (Except Exception Value)} {u : World}, Dialogue 12 g w₀ outcomes u →
        outcomes = (List.range outcomes.length).map (countingOutcome n) := by
  intro h
  have hrefused : Dialogue 12 ⟨0⟩ (newCounter 0 3) ([] ++ [.error .recursionError])
      ((newCounter 0 3).retain (.frame ⟨0⟩)) :=
    .call (v := .none) .start le_rfl (by decide) (.inl rfl) (.refused rfl rfl le_rfl)
  have hnew : (counterWorld 0).newGenerator ⟨0⟩ [.int 3] .none = (⟨0⟩, newCounter 0 3) := rfl
  have hcounts := h rfl hnew hrefused
  exact absurd hcounts (by decide)

end Resumable
