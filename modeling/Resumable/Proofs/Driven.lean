import Resumable.Proofs.Driving
import Resumable.Proofs.Independence

set_option autoImplicit false

/-!
# Generators over lists

A generator whose arguments and closure lead to nothing but lists and iterators over lists stays one
of this kind, as long as it is driven with such values (`World.Modest`).  If its program only goes
forward, then every call on it comes to an end (`forward_calls_end`).
-/

namespace Resumable

variable {P : Object → Prop} {p : Code.Program} {g : GeneratorRef} {r : FrameRef} {w : World}

/-! ## What can be reached -/

namespace World

/-- What an object leads to: a list to its items, and an iterator over a list to the list. -/
def leads (w : World) : Object → List Object
  | .list l => Value.objectsOfAll (w.items l)
  | .iterator i =>
      match w.iterator? i with
      | some (.list l _) => [.list l]
      | _ => []
  | _ => []

/-- The objects that can be reached from values. -/
inductive Reaches (w : World) (vs : List Value) : Object → Prop where
  | held {o : Object} (h : o ∈ Value.objectsOfAll vs) : Reaches w vs o
  | further {o o' : Object} (h : Reaches w vs o) (hleads : o' ∈ w.leads o) : Reaches w vs o'

/-- Nothing but lists and iterators over lists can be reached from values. -/
def Plain (w : World) (vs : List Value) : Prop :=
  ∀ o, w.Reaches vs o →
    match o with
    | .list _ => True
    | .iterator i => ∀ x, w.iterator? i = some x → x.Tame
    | .generator _ => False
    | .frame _ => False

/-- What a generator holds, its frame included. -/
def keptBy (w : World) (g : GeneratorRef) : List Value :=
  (w.generator g).closure :: (((w.generator g).frame.bind w.frame?).map Frame.owned).getD []

/-- The objects that can be reached from values, and the iterators still to be made. -/
def Near (w : World) (vs : List Value) (o : Object) : Prop :=
  w.Reaches vs o ∨ ∃ i : IteratorRef, o = .iterator i ∧ w.iterators.size ≤ i.index

variable {vs us : List Value} {t : World}

theorem Reaches.mono {o : Object} (h : w.Reaches vs o) (hsub : vs ⊆ us) : w.Reaches us o := by
  induction h with
  | held h =>
      obtain ⟨v, hv, hmem⟩ := Engine.mem_objectsOfAll.1 h
      exact .held (Engine.mem_objectsOfAll.2 ⟨v, hsub hv, hmem⟩)
  | further _ hleads ih => exact ih.further hleads

theorem reaches_append {o : Object} (h : w.Reaches (vs ++ us) o) : w.Reaches vs o ∨ w.Reaches us o := by
  induction h with
  | held h =>
      obtain ⟨v, hv, hmem⟩ := Engine.mem_objectsOfAll.1 h
      rcases List.mem_append.1 hv with hv | hv
      · exact Or.inl (.held (Engine.mem_objectsOfAll.2 ⟨v, hv, hmem⟩))
      · exact Or.inr (.held (Engine.mem_objectsOfAll.2 ⟨v, hv, hmem⟩))
  | further _ hleads ih => exact ih.imp (·.further hleads) (·.further hleads)

theorem Plain.append (h : w.Plain vs) (h' : w.Plain us) : w.Plain (vs ++ us) := fun o ho =>
  (reaches_append ho).elim (h o) (h' o)

/-- What is reached does not change while lists and iterators stay as they are. -/
theorem Reaches.congr {o : Object} (h : t.Reaches vs o) (hitems : ∀ l, t.items l = w.items l)
    (hiterators : ∀ i, t.iterator? i = w.iterator? i) : w.Reaches vs o := by
  have hleads : ∀ o, t.leads o = w.leads o := fun o => by
    cases o <;> simp only [leads, hitems, hiterators]
  induction h with
  | held h => exact .held h
  | further _ h ih => exact ih.further (hleads _ ▸ h)

theorem Plain.listlike (h : w.Plain vs) : Listlike (w.Near vs) where
  generator g := by
    rintro (hreached | ⟨i, heq, -⟩)
    · exact h _ hreached
    · cases heq
  frame r := by
    rintro (hreached | ⟨i, heq, -⟩)
    · exact h _ hreached
    · cases heq

theorem near_of_mem {v : Value} (hv : v ∈ vs) : Within (w.Near vs) v :=
  within_value_iff.2 fun _ ho => Or.inl (.held (Engine.mem_objectsOfAll.2 ⟨v, hv, ho⟩))

theorem Plain.closed (h : w.Plain vs) : w.Closed (w.Near vs) where
  items l hl := by
    rcases hl with hreached | ⟨i, heq, -⟩
    · exact within_values_iff.2 fun v hv => within_value_iff.2 fun o ho =>
        Or.inl (hreached.further (Engine.mem_objectsOfAll.2 ⟨v, hv, ho⟩))
    · cases heq
  iterators i hi x hx := by
    rcases hi with hreached | ⟨j, heq, hfresh⟩
    · have htame := h _ hreached x hx
      cases x with
      | scripted s => exact htame.elim
      | list l n =>
          have hlist : Within (w.Near vs) (Value.list l) := within_value_iff.2 fun o ho =>
            Or.inl (hreached.further (by simpa only [leads, hx, Value.objects] using ho))
          exact ⟨trivial, hlist⟩
    · cases heq
      have hnone : w.iterator? i = none := Store.content_of_size_le hfresh
      rw [hnone] at hx
      cases hx
  fresh i hi := Or.inr ⟨i, rfl, hi⟩

/-- What can be reached from values of a sort that is closed is of the sort. -/
theorem Closed.reached {o : Object} (hclosed : w.Closed P) (hvs : Within P vs) (h : w.Reaches vs o) :
    P o := by
  induction h with
  | held h =>
      obtain ⟨v, hv, hmem⟩ := Engine.mem_objectsOfAll.1 h
      exact within_value_iff.1 (within_values_iff.1 hvs v hv) _ hmem
  | @further o o' _ hleads ih =>
      cases o with
      | list l =>
          obtain ⟨v, hv, hmem⟩ := Engine.mem_objectsOfAll.1 hleads
          exact within_value_iff.1 (within_values_iff.1 (hclosed.items l ih) v hv) _ hmem
      | iterator i =>
          simp only [leads] at hleads
          split at hleads
          · next l n hx =>
            have hlist : Within P (Value.list l) := (hclosed.iterators i ih _ hx).2
            exact within_value_iff.1 hlist _ hleads
          · exact absurd hleads List.not_mem_nil
      | generator _ => exact absurd hleads List.not_mem_nil
      | frame _ => exact absurd hleads List.not_mem_nil

theorem Closed.plain (hP : Listlike P) (hclosed : w.Closed P) (hvs : Within P vs) : w.Plain vs := by
  intro o ho
  have hsort := hclosed.reached hvs ho
  cases o with
  | list l => trivial
  | iterator i => exact fun x hx => (hclosed.iterators i hsort x hx).1
  | generator g => exact hP.generator g hsort
  | frame r => exact hP.frame r hsort

end World

/-! ## A generator that is driven -/

/-- A generator runs a program and holds only what leads to lists and iterators over lists. -/
structure World.Modest (p : Code.Program) (g : GeneratorRef) (w : World) : Prop where
  body : (w.code (w.generator g).code).body = .program p
  plain : w.Plain (w.keptBy g)

section Modest

variable {t : World} {method : Method} {args : List Value}

/-- Such a generator, and the values of a call on it, have to do with one sort of objects. -/
theorem World.Modest.confined (h : w.Modest p g) (hargs : w.Plain args) :
    ∃ (P : Object → Prop) (r : FrameRef), Listlike P ∧ w.Confined P p g r ∧ Within P args := by
  have hplain := hargs.append h.plain
  have hkept : ∀ v ∈ w.keptBy g, Within (w.Near (args ++ w.keptBy g)) v := fun v hv =>
    World.near_of_mem (List.mem_append_right args hv)
  refine ⟨_, ((w.generator g).frame).getD ⟨w.frames.size⟩, hplain.listlike,
    { hplain.closed with
      frame := fun f hf => ?_
      slot := fun s hs => by rw [hs]; rfl
      closure := hkept _ List.mem_cons_self
      body := h.body },
    within_values_iff.2 fun v hv => World.near_of_mem (List.mem_append_left _ hv)⟩
  cases hslot : (w.generator g).frame with
  | none =>
      rw [hslot] at hf
      have hnone : w.frame? ⟨w.frames.size⟩ = none := Store.content_of_size_le le_rfl
      exact absurd (hnone.symm.trans hf) nofun
  | some r =>
      rw [hslot] at hf
      have howned : w.keptBy g = (w.generator g).closure :: f.owned := by
        have hf : w.frame? r = some f := hf
        simp only [World.keptBy, hslot, Option.bind_some, hf, Option.map_some, Option.getD_some]
      have hwithin : Within (w.Near (args ++ w.keptBy g)) f.owned := within_values_iff.2 fun v hv =>
        hkept v (howned ▸ List.mem_cons_of_mem _ hv)
      exact hwithin

theorem World.Confined.modest (hP : Listlike P) (hw : w.Confined P p g r) : w.Modest p g := by
  refine ⟨hw.body, hw.toClosed.plain hP (within_cons_iff.2 ⟨hw.closure, ?_⟩)⟩
  cases hslot : (w.generator g).frame with
  | none => exact within_of_holds_zero rfl
  | some s =>
      obtain rfl := hw.slot s hslot
      cases hf : w.frame? s with
      | none =>
          rw [Option.bind_some, hf]
          exact within_of_holds_zero rfl
      | some f =>
          rw [Option.bind_some, hf]
          exact hw.frame f hf

/-- With all engines that have enough fuel, a call comes to this end. -/
def World.CallEnds (w : World) (g : GeneratorRef) (method : Method) (args : List Value)
    (ending : Run.Ending Value) (t : World) : Prop :=
  ∃ n, ∀ k, n ≤ k → Run.contain ((Machine.engine k).call g method args) w = .ok ending t

theorem World.CallEnds.unique {ending ending' : Run.Ending Value} {t' : World}
    (h : w.CallEnds g method args ending t) (h' : w.CallEnds g method args ending' t') :
    ending = ending' ∧ t = t' := by
  obtain ⟨n, hn⟩ := h
  obtain ⟨m, hm⟩ := h'
  have heq := (hn (max n m) (by omega)).symm.trans (hm (max n m) (by omega))
  cases heq
  exact ⟨rfl, rfl⟩

/-- A call on such a generator comes to an end, and leaves it as one. -/
theorem World.Modest.call_ends (hforward : p.Forward) (h : w.Modest p g) (method : Method)
    (hargs : w.Plain args) : ∃ ending t, w.CallEnds g method args ending t ∧ t.Modest p g := by
  obtain ⟨P, r, hP, hw, hwithin⟩ := h.confined hargs
  obtain ⟨x, n, hn, hx⟩ := call_orderly hP hw hforward method hwithin
  cases hx with
  | @ok v t ht =>
      exact ⟨.result v, t, ⟨n, fun k hk => by simp only [Run.contain, hn k hk]⟩, ht.2.modest hP⟩
  | @raised y t hy ht =>
      exact ⟨.raised y, t, ⟨n, fun k hk => by simp only [Run.contain, hn k hk]⟩, ht.modest hP⟩
  | @aborted t ht =>
      exact ⟨.aborted, t, ⟨n, fun k hk => by simp only [Run.contain, hn k hk]⟩, ht.modest hP⟩

theorem modest_newGenerator {code : CodeRef} {closure : Value}
    (hbody : (w.code code).body = .program p) (hplain : w.Plain (closure :: args))
    (hmade : w.newGenerator code args closure = (g, t)) : t.Modest p g := by
  have hsolo := solo_newGenerator hmade
  have hgenerator : t.generator g = ⟨code, closure, some ⟨w.frames.size⟩, false⟩ :=
    congrArg Solo.generator hsolo
  have hframe : t.frame? ⟨w.frames.size⟩ = some (.new code args) :=
    congrArg (fun s => s.cell.content) hsolo
  refine ⟨?_, ?_⟩
  · rw [hgenerator, World.code, codes_newGenerator hmade]
    exact hbody
  · have hkept : t.keptBy g = closure :: args := by
      simp [World.keptBy, hgenerator, hframe, Frame.owned, Frame.new]
    rw [hkept]
    cases hmade
    exact fun o ho => hplain o (ho.congr (fun _ => rfl) fun _ => rfl)

end Modest

/-- A generator for a program, driven by calls with values that lead to nothing but lists and iterators
over lists.  What happens between the calls leaves the generator alone, and puts nothing else into the
lists that it can reach. -/
inductive Driven (p : Code.Program) (g : GeneratorRef) : World → Prop where
  | made {w t : World} {code : CodeRef} {args : List Value} {closure : Value}
      (hbody : (w.code code).body = .program p) (hplain : w.Plain (closure :: args))
      (hmade : w.newGenerator code args closure = (g, t)) : Driven p g t
  | called {w t : World} (h : Driven p g w) (method : Method) {args : List Value}
      (hargs : w.Plain args) {ending : Run.Ending Value}
      (hcall : w.CallEnds g method args ending t) : Driven p g t
  | meanwhile {w t : World} (h : Driven p g w) (hgenerator : t.generator g = w.generator g)
      (hcode : t.code (w.generator g).code = w.code (w.generator g).code)
      (hframe : ∀ r, (w.generator g).frame = some r → t.frame? r = w.frame? r)
      (hplain : t.Plain (t.keptBy g)) : Driven p g t

theorem Driven.modest (hforward : p.Forward) (h : Driven p g w) : w.Modest p g := by
  induction h with
  | made hbody hplain hmade => exact modest_newGenerator hbody hplain hmade
  | called _ method hargs hcall ih =>
      obtain ⟨ending, t, hends, hmodest⟩ := ih.call_ends hforward method hargs
      obtain ⟨-, rfl⟩ := hends.unique hcall
      exact hmodest
  | meanwhile _ hgenerator hcode _ hplain ih =>
      refine ⟨?_, hplain⟩
      rw [hgenerator, hcode]
      exact ih.body

/-- Every call on a generator whose program only goes forward comes to an end, as long as all that the
generator and the call have to do with are lists and iterators over lists. -/
theorem forward_calls_end (hforward : p.Forward) (hdriven : Driven p g w) (method : Method)
    {args : List Value} (hargs : w.Plain args) : ∃ ending t, w.CallEnds g method args ending t := by
  obtain ⟨ending, t, hends, -⟩ := (hdriven.modest hforward).call_ends hforward method hargs
  exact ⟨ending, t, hends⟩

/-! ### Passing the items of a list on, guarded by a handler -/

/-- A body that passes the items of its argument on.  What is raised meanwhile is returned. -/
def guarded : Code.Program :=
  ⟨[.setupExcept 3, .loadFast 0, .yieldFrom, .returnValue, .returnValue], ["it"], 1, []⟩

/-- A world with this body, and a list of one item. -/
def guardedWorld : World :=
  (((World.new 1000 .collecting).newCode ⟨"each", "<bytecode>", .program guarded⟩).2.newList [.int 1]).2

/-- The body is given the list, and its generator is asked for an item. -/
theorem forward_calls_end_guarded :
    guarded.Forward ∧ Driven guarded ⟨0⟩ (guardedWorld.newGenerator ⟨0⟩ [.list ⟨0⟩] .none).2 ∧
      ∃ ending t, (guardedWorld.newGenerator ⟨0⟩ [.list ⟨0⟩] .none).2.CallEnds ⟨0⟩ .next [] ending t := by
  have hforward : guarded.Forward := by
    unfold Code.Program.Forward
    decide
  have hlist : guardedWorld.Plain [.none, .list ⟨0⟩] := by
    have honly : ∀ o, guardedWorld.Reaches [.none, .list ⟨0⟩] o → o = .list ⟨0⟩ := by
      intro o ho
      induction ho with
      | held h => exact List.mem_singleton.1 h
      | further _ hleads ih =>
          subst ih
          exact absurd hleads List.not_mem_nil
    intro o ho
    rw [honly o ho]
    trivial
  have hnothing : ∀ w : World, w.Plain [] := by
    intro w o ho
    refine (?_ : False).elim
    induction ho with
    | held h => exact absurd h List.not_mem_nil
    | further _ _ ih => exact ih
  have hdriven : Driven guarded ⟨0⟩ (guardedWorld.newGenerator ⟨0⟩ [.list ⟨0⟩] .none).2 :=
    .made rfl hlist rfl
  exact ⟨hforward, hdriven, forward_calls_end hforward hdriven .next (hnothing _)⟩

end Resumable
