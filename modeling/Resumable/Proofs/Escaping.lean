import Resumable.Proofs.Throwing

set_option autoImplicit false

/-!
# What an exception records on its way out
-/

namespace Resumable

variable {Z : Zone} {F : Bag} {L : Law} {e : Engine} {w w' t u : World} {g i : GeneratorRef}
  {r : FrameRef} {f : Frame} {x y : Exception} {n : Nat} {α : Type}

/-! ## Out of one body -/

theorem Run.RaisesOnly.withFrame {P : Exception → Prop} {m : Run (Frame × World) α}
    (hf : w.frame? r = some f) (h : Run.RaisesOnly P (m (f, w.setFrame r none))) :
    Run.RaisesOnly P (World.withFrame r m w) := by
  unfold World.withFrame Run.withPrivate
  rw [hf]
  simp only
  generalize m (f, w.setFrame r none) = y at h
  rcases y with ⟨a, s⟩ | ⟨_ | _ | _, s⟩
  · exact h.elim
  all_goals exact h

/-- A place in a code object. -/
def World.placeIn (w : World) (c : CodeRef) (offset : Nat) : TraceEntry :=
  ⟨(w.code c).name, (w.code c).filename, offset⟩

namespace Exec

variable (he : e.Lenient)

include he

theorem clearStack_silent : Run.Silent (clearStack e) := by
  refine Run.Silent.bind (fun _ _ _ h => nomatch h) fun a => ?_
  refine Run.Silent.bind (fun _ _ _ h => nomatch h) fun _ => ?_
  exact (Engine.releaseObjects_silent he _).shared

/-- An exception that no handler waits for records the instruction before the counter, and leaves. -/
theorem unwind_escapes {a : Activation} (hblocks : a.frame.blocks = []) :
    Run.RaisesOnly (· = x.pushEntry (w.placeIn a.frame.code (a.counter - 1))) (unwind e x (a, w)) := by
  have hrelease : Run.Silent (Run.shared (e.releaseException x) : Exec Unit) :=
    (Engine.releaseObjects_silent he _).shared
  let marked : Activation := { a with frame := { a.frame with position := (a.counter - 1 : Nat) } }
  have hleaving : Run.RaisesOnly (· = x.pushEntry (w.placeIn a.frame.code (a.counter - 1)))
      ((do
        (clearStack e).onInterruption (release e x.toValue)
        modifyFrame Frame.markFinished
        Run.raise (x.pushEntry (w.placeIn a.frame.code (a.counter - 1))) : Exec Unit) (marked, w)) := by
    refine Run.RaisesOnly.after ((clearStack_silent he).onInterruption hrelease) fun _ s _ => ?_
    exact Run.RaisesOnly.after (fun _ _ _ h => nomatch h) fun _ _ _ => rfl
  unfold unwind
  rw [Run.bind_ok (rfl : activation (a, w) = .ok a (a, w)), hblocks]
  exact hleaving

end Exec

/-! ## Out of a generator -/

/-- A program that is resumed with an exception raises it and records where. -/
theorem Code.Program.resume_escapes (he : e.Lenient) (p : Code.Program) (closure : Value)
    (hstart : 0 ≤ f.position) (hblocks : f.blocks = []) :
    Run.RaisesOnly (· = x.pushEntry (w.placeIn f.code (f.position.toNat - 1)))
      (p.resume e closure (some x) (f, w)) := by
  let a : Activation := ⟨{ f with input := none }, f.position.toNat, f.input.getD .none⟩
  have hforget : Run.Silent (do Exec.release e (← Exec.takeSent) : Exec Unit) :=
    Run.Silent.bind (fun _ _ _ h => nomatch h) fun _ => (Engine.releaseObjects_silent he _).shared
  have hescapes : Run.RaisesOnly (· = x.pushEntry (w.placeIn f.code (f.position.toNat - 1)))
      (Exec.resume e p closure (some x) (a, w)) :=
    (Exec.unwind_escapes (a := a) he hblocks).bind
  have hended := hescapes.ensuring hforget
  simp only [Code.Program.resume, if_neg (Int.not_lt.2 hstart)]
  generalize ((Exec.resume e p closure (some x)).ensuring _) (a, w) = ending at hended ⊢
  rcases ending with ⟨_, s⟩ | ⟨_ | _ | _, s⟩ <;> exact hended

theorem Engine.terminate_silent (he : e.Lenient) (g : GeneratorRef) : Run.Silent (e.terminate g) := by
  intro w y t h
  cases hslot : (w.generator g).frame with
  | none =>
      rw [terminate_of_frameless hslot] at h
      cases h
  | some r =>
      rw [terminate_of_frame hslot] at h
      refine Run.Silent.ensuring ?_ (Engine.releaseObjects_silent he _) _ _ _ h
      refine Run.Silent.bind (fun _ _ _ h => nomatch h) fun s => ?_
      split
      · refine Engine.withFrame_silent (Run.Silent.bind (fun _ _ _ h => nomatch h) fun _ => ?_)
        exact Engine.replace_silent he _
      · exact Run.silent_pure ()

/-- Running the body of a generator with an exception that no handler waits for. -/
theorem runBody_escapes (he : e.Lenient) (hprogram : (w.generator g).RunsProgram w.codes)
    (hf : w.frame? r = some f) (hstart : 0 ≤ f.position) (hblocks : f.blocks = []) :
    Run.RaisesOnly (· = x.pushEntry (w.placeIn f.code (f.position.toNat - 1)))
      (e.runBody g r (some x) w) := by
  obtain ⟨p, hp⟩ := hprogram
  have hresume : (w.code (w.generator g).code).resume e (w.generator g).closure (some x)
      = p.resume e (w.generator g).closure (some x) := by
    unfold CodeObject.resume World.code
    rw [hp]
  have hescapes := Code.Program.resume_escapes (x := x)
    (w := (w.setRunning g true).setFrame r none) he p (w.generator g).closure hstart hblocks
  rw [← hresume] at hescapes
  have hinside := Run.RaisesOnly.withFrame (w := w.setRunning g true) hf hescapes
  exact hinside.ensuring fun _ _ _ h => nomatch h

/-- A generator that is resumed with an exception which no handler waits for raises it. -/
theorem resume_escapes (he : e.Lenient) (hprogram : (w.generator g).RunsProgram w.codes)
    (hidle : (w.generator g).running = false) (hslot : (w.generator g).frame = some r)
    (hroom : w.thread.depth < w.thread.limit) (hf : w.frame? r = some f)
    (hpending : f.pending = some x) (hstart : 0 ≤ f.position) (hblocks : f.blocks = []) :
    Run.RaisesOnly (· = x.pushEntry (w.placeIn f.code (f.position.toNat - 1)))
      (e.resume g .none w) := by
  have hforget : ∀ v, Run.Silent (e.release v) := fun v => Engine.releaseObjects_silent he v.objects
  have hunfinished : f.isFinished = false := by
    have hne : f.position ≠ Frame.finished := fun heq => by
      rw [heq] at hstart
      exact absurd hstart (by decide)
    simpa [Frame.isFinished] using hne
  rw [resume_of_room hidle hslot hroom]
  refine Run.RaisesOnly.ensuring ?_ (hforget _)
  unfold Engine.proceed
  refine Run.RaisesOnly.bind (Run.RaisesOnly.onInterruption ?_
    (Run.Silent.bind (fun _ _ _ h => by cases h) fun _ => hforget _))
  have hentered : (w.entered r).frame? r = some f := by rw [World.frame_entered, hf]
  rw [resumeFrame_of_pending hentered hunfinished hpending]
  let b : Frame := { f with pending := none }
  let s : World := ((w.entered r).setFrame r none).setFrame r (some b)
  have hcodes : s.codes = w.codes := (World.Same.addOwners w _ []).codes
  have hgenerator : s.generator g = w.generator g := generator_addOwners ..
  have hran := runBody_escapes (x := x) (w := s) (f := b) (r := r) he
    (by rwa [hgenerator, hcodes]) (by rw [World.frame_setFrame, if_pos rfl]) hstart hblocks
  have hplace : s.placeIn f.code = w.placeIn f.code := by
    funext offset
    rw [World.placeIn, World.placeIn, World.code, World.code, hcodes]
  rw [← hplace]
  refine hran.answered fun y t hy _ => ?_
  exact Run.RaisesOnly.after
    ((Engine.terminate_silent he g).onInterruption (Engine.releaseObjects_silent he _)) fun _ _ _ => hy

/-! ## Out of a chain of delegations -/

/-- A generator is suspended at an instruction of its program where no handler is active.  It is a
`yieldFrom` if the generator delegates, and a `yieldValue` if it does not; the instruction has a place in
the code that the frame was made for. -/
structure World.SuspendedAt (w : World) (g : GeneratorRef) (place : TraceEntry) (r : FrameRef)
    (f : Frame) : Prop where
  slot : (w.generator g).frame = some r
  frame : w.frame? r = some f
  blocks : f.blocks = []
  located : place = w.placeIn f.code place.offset
  program : ∃ p : Code.Program, (w.code (w.generator g).code).body = .program p ∧
    ((f.delegate.isSome = true ∧ f.position = place.offset ∧
        p.instructions[place.offset]? = some .yieldFrom) ∨
      (f.delegate = none ∧ f.position = place.offset + 1 ∧
        p.instructions[place.offset]? = some .yieldValue))

/-- A generator is suspended at a place. -/
def World.WaitsAt (w : World) (g : GeneratorRef) (place : TraceEntry) : Prop :=
  ∃ r f, w.SuspendedAt g place r f

instance (w : World) (g : GeneratorRef) (place : TraceEntry) : Decidable (w.WaitsAt g place) :=
  match hslot : (w.generator g).frame with
  | none => .isFalse fun ⟨_, _, h⟩ => nomatch hslot.symm.trans h.slot
  | some r =>
    match hf : w.frame? r with
    | none => .isFalse fun ⟨s, _, h⟩ => by
        obtain rfl : r = s := Option.some.inj (hslot.symm.trans h.slot)
        cases hf.symm.trans h.frame
    | some f =>
      match hp : (w.code (w.generator g).code).body with
      | .script _ => .isFalse fun ⟨_, _, h⟩ => by
          obtain ⟨_, hprogram, _⟩ := h.program
          cases hp.symm.trans hprogram
      | .program p =>
        decidable_of_iff (f.blocks = [] ∧ place = w.placeIn f.code place.offset ∧
          ((f.delegate.isSome = true ∧ f.position = place.offset ∧
              p.instructions[place.offset]? = some .yieldFrom) ∨
            (f.delegate = none ∧ f.position = place.offset + 1 ∧
              p.instructions[place.offset]? = some .yieldValue)))
          ⟨fun ⟨hblocks, hlocated, hwhere⟩ => ⟨r, f, hslot, hf, hblocks, hlocated, p, hp, hwhere⟩,
            fun ⟨s, b, h⟩ => by
              obtain rfl : r = s := Option.some.inj (hslot.symm.trans h.slot)
              obtain rfl : f = b := Option.some.inj (hf.symm.trans h.frame)
              obtain ⟨q, hq, hwhere⟩ := h.program
              obtain rfl : p = q := Body.program.inj (hp.symm.trans hq)
              exact ⟨h.blocks, h.located, hwhere⟩⟩

/-- The entries of an exception that escapes from generators suspended at these places: of the last one
the instruction where it is suspended, of those before it one less. -/
def Traceback.recorded : List TraceEntry → List TraceEntry
  | [] => []
  | [place] => [place]
  | place :: next :: rest => { place with offset := place.offset - 1 } :: recorded (next :: rest)

namespace World

theorem SuspendedAt.of_same {place : TraceEntry} {gs : List GeneratorRef}
    (h : w.SuspendedAt g place r f) (hsame : w.Same gs t) (hg : g ∈ gs) :
    t.SuspendedAt g place r f where
  slot := by rw [hsame.generator g hg, h.slot]
  frame := by rw [hsame.frame r, h.frame]
  blocks := h.blocks
  located := by
    rw [placeIn, code, hsame.codes]
    exact h.located
  program := by
    rw [hsame.generator g hg, code, hsame.codes]
    exact h.program

theorem Same.waitsAt {gs : List GeneratorRef} {places : List TraceEntry} (h : w.Same gs t)
    (hplaces : List.Forall₂ w.WaitsAt gs places) : List.Forall₂ t.WaitsAt gs places := by
  obtain ⟨hlength, hplaces⟩ := List.forall₂_iff_zip.1 hplaces
  refine List.forall₂_iff_zip.2 ⟨hlength, fun {i place} hmem => ?_⟩
  obtain ⟨r, f, hsuspended⟩ := hplaces hmem
  exact ⟨r, f, hsuspended.of_same h (List.of_mem_zip hmem).1⟩

theorem SuspendedAt.delegateOf {place : TraceEntry} (h : w.SuspendedAt g place r f) :
    w.delegateOf g = f.delegate := by
  simp [World.delegateOf, h.slot, h.frame]

theorem SuspendedAt.start {place : TraceEntry} (h : w.SuspendedAt g place r f) : 0 ≤ f.position := by
  obtain ⟨_, _, ⟨_, hposition, _⟩ | ⟨_, hposition, _⟩⟩ := h.program <;> omega

/-- The resume point of a generator that does not delegate is right after the place. -/
theorem SuspendedAt.position_of_yield {place : TraceEntry} (h : w.SuspendedAt g place r f)
    (hdelegate : f.delegate = none) : f.position.toNat - 1 = place.offset := by
  obtain ⟨_, _, ⟨hsome, _⟩ | ⟨_, hposition, _⟩⟩ := h.program
  · rw [hdelegate] at hsome
    cases hsome
  · omega

/-- The resume point of a generator that delegates is the place. -/
theorem SuspendedAt.position_of_delegation {place : TraceEntry} (h : w.SuspendedAt g place r f)
    {inner : Value} (hdelegate : f.delegate = some inner) : f.position.toNat = place.offset := by
  obtain ⟨_, _, ⟨_, hposition, _⟩ | ⟨hnone, _⟩⟩ := h.program
  · omega
  · rw [hdelegate] at hnone
    cases hnone

end World

theorem pushEntry_of_fresh (hfresh : x.traceback = none) (place : TraceEntry) :
    x.pushEntry place = { x with traceback := some ⟨[place]⟩ } := by
  rw [Exception.pushEntry, hfresh]
  rfl

/-- A generator in which an exception is to be raised, and no handler waits for it, raises the exception
with one entry more. -/
theorem raising_escapes {place : TraceEntry} (h : w.SuspendedAt g place r f)
    (hidle : (w.generator g).running = false) (hroom : w.thread.depth < w.thread.limit)
    (ht : w.Raising g r f x t) :
    Run.RaisesOnly (· = x.pushEntry { place with offset := f.position.toNat - 1 })
      (Machine.perform n (.resume g .none) t) := by
  cases n with
  | zero => exact True.intro
  | succ n =>
      obtain ⟨p, hp, _⟩ := h.program
      have hprogram : (t.generator g).RunsProgram t.codes := by
        rw [ht.generator, ht.codes]
        exact ⟨p, hp⟩
      have hescapes := resume_escapes (Engine.machine_lenient n) hprogram
        (by rw [ht.generator, hidle]) (by rw [ht.generator, h.slot]) (by rwa [ht.thread]) ht.frame rfl
        h.start h.blocks
      have hplace : t.placeIn f.code (f.position.toNat - 1)
          = { place with offset := f.position.toNat - 1 } := by
        rw [h.located, World.placeIn, World.placeIn, World.code, World.code, ht.codes]
      rw [← hplace]
      exact hescapes

section Chain

variable [L.Free] (hscript : ¬ L.tame) {rest : List GeneratorRef} {places : List TraceEntry}
  {thrown : Throw}

include hscript

/-- An exception without a traceback that is thrown into a chain of delegations escapes from it. -/
theorem throw_escapes (hchain : w.Chain g rest)
    (hplaces : List.Forall₂ w.WaitsAt (g :: rest) places)
    (hroom : w.thread.depth < w.thread.limit)
    (htb : Engine.tracebackOf thrown.traceback = .ok none)
    (hx : Exception.normalize thrown.type thrown.value = .ok x) (hfresh : x.traceback = none)
    (hstop : x.kind ≠ .stopIteration) (hexit : x.kind ≠ .generatorExit)
    (hZ : Z.Fit (Zone.Level L)) (hheld : Z.Held F g) (h : Z.Linked (holds thrown + F) w w') :
    Run.RaisesOnly (· = { x with traceback := some ⟨Traceback.recorded places⟩ })
      (Machine.perform n (.throw g thrown) w) := by
  have hserves := serves_free (L := L)
  induction rest generalizing n g w w' Z F places thrown with
  | nil =>
      obtain ⟨place, _, ⟨r, f, hsuspended⟩, hnil, rfl⟩ := List.forall₂_cons_left_iff.1 hplaces
      obtain rfl := List.forall₂_nil_left_iff.1 hnil
      have hdelegate : f.delegate = none := by
        cases hchain with
        | last _ _ hnone => rw [← hsuspended.delegateOf, hnone]
      cases n with
      | zero => exact True.intro
      | succ n =>
          refine answerThrow_here (hserves n) (Engine.machine_lenient n) hZ hscript htb
            (exceptionKind_of_normalize hx hexit) hheld hchain.idle hsuspended.slot hsuspended.frame hx
            (fun inner hinner => ?_) h fun hraising => ?_
          · rw [hdelegate] at hinner
            cases hinner
          · have hescapes := raising_escapes (x := x) (n := n) hsuspended hchain.idle hroom hraising
            rw [hsuspended.position_of_yield hdelegate, pushEntry_of_fresh hfresh] at hescapes
            exact hescapes
  | cons i rest ih =>
      obtain ⟨place, _, ⟨r, f, hsuspended⟩, hrest, rfl⟩ := List.forall₂_cons_left_iff.1 hplaces
      obtain ⟨next, others, hnext, hothers, rfl⟩ := List.forall₂_cons_left_iff.1 hrest
      cases hchain with
      | link hstate hdelegate hchain' =>
          have hg : g ∉ i :: rest := (World.Chain.link hstate hdelegate hchain').not_mem
          have hidle := (World.Chain.link hstate hdelegate hchain').idle
          rw [hsuspended.delegateOf] at hdelegate
          cases n with
          | zero => exact True.intro
          | succ n =>
              let y : Exception := { x with traceback := some ⟨Traceback.recorded (next :: others)⟩ }
              refine answerThrow_through (Q := (· = y)) (hserves n) (Engine.machine_lenient n) hZ hscript htb
                (exceptionKind_of_normalize hx hexit) hheld hidle hsuspended.slot hsuspended.frame
                hdelegate (fun _ hy => hy ▸ hstop) h (fun {Y H s s'} hY hheld hs hthread hsame => ?_)
                fun hy hraising => ?_
              · have hsame := hsame (i :: rest) hg
                exact ih (hsame.isChain hchain') (hsame.waitsAt hrest) (by rwa [hthread]) rfl hx hY hheld
                  hs
              · subst hy
                have hescapes := raising_escapes (n := n) hsuspended hidle hroom hraising
                rwa [hsuspended.position_of_delegation hdelegate] at hescapes

end Chain

/-- There is an entry for each of the places. -/
theorem length_recorded (places : List TraceEntry) :
    (Traceback.recorded places).length = places.length := by
  induction places with
  | nil => rfl
  | cons place rest ih =>
      cases rest with
      | nil => rfl
      | cons next others => simpa [Traceback.recorded] using ih

namespace Session

/-- The places at which the two generators are suspended. -/
def escapingPlaces : List TraceEntry := [⟨"outer", "<bytecode>", 1⟩, ⟨"inner", "<bytecode>", 1⟩]

end Session

end Resumable
