import Resumable.Proofs.Machine
import Resumable.Proofs.Variables
import Resumable.Session.Step

set_option autoImplicit false

/-!
# Worlds at rest

In the course of a command, between two computations, nothing is running and no frame is out of its
cell.  A world is sound (`World.Sound`) if this is so, if every object has as many owners as there are
references to it and holders of it, and if the variables are in order.  It is then linked to itself in
a zone that says nothing further, and stays sound in whatever the machine does.

What a command does between two computations of the machine, to variables and code and by making new
generators and frames, keeps worlds sound as well.
-/

namespace Resumable

variable {α β : Type} {L : Law} {F G : Bag} {w w' t t' : World} {i : Nat}

/-! ## Plain zones -/

namespace Zone

/-- The zone that says nothing but what the thread, the code and the variables are. -/
def plain (L : Law) (w : World) : Zone where
  hidden _ := False
  sealed _ := False
  left := 0
  right := 0
  stash := w
  beyond := w
  spared _ := False
  leftThread := w.thread
  rightThread := w.thread
  codes := w.codes
  names := w.names
  fixed _ := none
  law := L
  cells _ := none
  used _ := False

/-- The zones under a law in which nothing is hidden, the two worlds do not differ from outside, and no
more levels are taken than there are. -/
structure Level (L : Law) (Z : Zone) : Prop where
  hidden : ∀ o, ¬ Z.hidden o
  thread : Z.leftThread = Z.rightThread
  bounded : Z.leftThread.depth ≤ Z.leftThread.limit
  holders : Z.left = Z.right
  law : Z.law = L

theorem level_inherited (L : Law) : Inherited (Level L) := fun _ _ h hext =>
  ⟨fun o => hext.hidden ▸ h.hidden o, hext.thread h.thread, hext.level h.bounded,
    hext.holders h.holders, hext.law.trans h.law⟩

/-- In such a zone a world that is linked to another is linked to itself. -/
theorem Linked.self {Z : Zone} (h : Z.Linked F w w') (hlevel : Level L Z) : Z.Linked F w w where
  pinned := h.pinned
  alike :=
    { thread := h.pinned.thread.trans hlevel.thread
      surroundings := rfl
      sizes := rfl
      items := fun _ _ => rfl
      iterator := fun _ _ => rfl
      generator := fun _ _ => rfl
      frame := fun _ _ => rfl
      owners := fun o _ => by rw [hlevel.holders]
      beyond := fun o ho => absurd ho (hlevel.hidden o) }
  accounted := h.accounted
  tame := h.tame

/-- A law that bars nothing gives way to any other one. -/
theorem Fit.decree {L' : Law} [L'.Free] {Z : Zone} (h : Z.Fit (Level L')) :
    (Z.decree L).Fit (Level L) where
  inherited := level_inherited L
  property := { h.property with law := rfl }
  valid := by
    refine h.valid.decree (fun g hbarred => ?_) fun o ho w => ?_
    · rw [h.property.law] at hbarred
      exact absurd hbarred (Law.Free.not_barred L' g)
    · have hbarred := h.valid.spared o ho w
      rw [h.property.law] at hbarred
      exact absurd hbarred (Law.Free.free _ w)
  room := Or.inl h.property.thread

theorem plain_valid (L : Law) (w : World) : (plain L w).Valid where
  sealed_of_hidden _ h := h.elim
  holders _ := Or.inl rfl
  spared _ h := h.elim
  sink := rfl
  kept _ _ h := nomatch h
  locked _ _ h := nomatch h
  slot _ _ h := nomatch h
  cell _ _ h := nomatch h

theorem plain_fit (L : Law) (w : World) (h : w.thread.depth ≤ w.thread.limit) :
    (plain L w).Fit (Level L) :=
  ⟨level_inherited L, ⟨fun _ ho => ho, rfl, h, rfl, rfl⟩, plain_valid L w, Or.inl rfl⟩

/-- In a plain zone nothing is in use. -/
theorem plain_breaks {L : Law} {w : World} (h : (plain L w).Breaks) : ¬ L.tame := fun htame =>
  h htame ⟨fun ⟨_, hr⟩ => hr, fun _ hr => nomatch hr⟩

end Zone

/-! ## Sound worlds -/

/-- An object is in its cell. -/
def World.InCell (w : World) : Object → Prop
  | .frame r => w.frame? r ≠ none
  | .iterator r => w.iterator? r ≠ none
  | _ => True

/-- Nothing is running and nothing is in use, the objects have owners for all references and for what others hold, two
generators never share a frame, the variables are in order, and no more levels are taken than there
are. -/
structure World.Sound (L : Law) (F : Bag) (w : World) : Prop where
  law : L.rule w
  tame : L.tame → w.Tame
  idle : ∀ g, (w.generator g).running = false
  owned : ∀ o, w.references (fun _ => False) o + F o ≤ w.owners o
  slots : ∀ g h r, (w.generator g).frame = some r → (w.generator h).frame = some r → g = h
  seated : ∀ o, 1 ≤ w.owners o → w.InCell o
  sorted : w.names.Sorted
  bounded : w.thread.depth ≤ w.thread.limit

namespace World.Sound

theorem le (h : w.Sound L G) (hle : F ≤ G) : w.Sound L F :=
  { h with
    owned := fun o => by
      have := h.owned o
      have := Bag.apply_le hle o
      omega }

/-- Soundness under another law. -/
theorem under {L' : Law} (h : w.Sound L F) (hlaw : L'.rule w) (htame : L'.tame → L.tame) :
    w.Sound L' F :=
  { h with law := hlaw, tame := fun hL => h.tame (htame hL) }

/-- A sound world is linked to itself. -/
theorem linked (h : w.Sound L F) : (Zone.plain L w).Linked F w w where
  pinned :=
    { thread := rfl
      codes := rfl
      names := rfl
      fixed := fun _ _ hx => nomatch hx
      law := h.law
      cells := fun _ _ hc => nomatch hc
      running := fun g hg => by
        rw [h.idle g] at hg
        cases hg
      stash := fun _ ho => ho.elim
      spared := fun _ ho => ho.elim
      vacant := fun _ ho => ho.elim
      lists := fun _ hr => hr.elim
      iterators := fun _ hr => hr.elim }
  alike :=
    { thread := rfl
      surroundings := rfl
      sizes := rfl
      items := fun _ _ => rfl
      iterator := fun _ _ => rfl
      generator := fun _ _ => rfl
      frame := fun _ _ => rfl
      owners := fun _ _ => rfl
      beyond := fun _ ho => ho.elim }
  accounted :=
    { owned := fun o _ => h.owned o
      unseen := fun _ ho => ho.elim
      slots := fun g h' r _ _ => h.slots g h' r
      seated := fun o _ hone => by
        have hin := h.seated o hone
        cases o with
        | frame r => exact fun hr => absurd hr hin
        | iterator r => exact fun hr => absurd hr hin
        | _ => trivial }
  tame := h.tame

end World.Sound

/-- A world that is linked to another in a plain zone is sound. -/
theorem Zone.Linked.sound (h : (Zone.plain L w).Linked F t t') (hw : w.Sound L G) :
    t.Sound L F where
  law := h.pinned.law
  tame := h.tame
  idle g := by
    by_contra hrunning
    have := h.pinned.running g (by simpa using hrunning)
    cases this
  owned o := h.accounted.owned o fun ho => ho
  slots g h' r := h.accounted.slots g h' r (fun hh => hh) fun hh => hh
  seated o hone := by
    have hin := h.accounted.seated o (fun hh => hh) hone
    cases o with
    | frame r => exact fun hr => nomatch hin hr
    | iterator r => exact fun hr => hin hr
    | _ => trivial
  sorted := by
    rw [h.pinned.names]
    exact hw.sorted
  bounded := by
    rw [h.pinned.thread]
    exact hw.bounded

/-- A sound world on a thread. -/
structure World.Rests (L : Law) (i : Nat) (F : Bag) (w : World) : Prop where
  sound : w.Sound L F
  thread : w.thread.id = i

theorem World.Rests.le (h : w.Rests L i G) (hle : F ≤ G) : w.Rests L i F :=
  ⟨h.sound.le hle, h.thread⟩

theorem World.Rests.fit (h : w.Rests L i F) : (Zone.plain L w).Fit (Zone.Level L) :=
  Zone.plain_fit L w h.sound.bounded

/-- Being one and the same sound world. -/
def World.rest (L : Law) (i : Nat) : Bond World where
  rel F w w' := w = w' ∧ w.Rests L i F
  calm w := w.thread.id = i ∨ L.broken w
  aborts := ¬ L.tame
  le hle h := ⟨h.1, h.2.le hle⟩

/-! ## Computations that leave sound worlds -/

/-- A computation leaves a sound world, in which its result or exception is held too. -/
def Settles (L : Law) (i : Nat) (F : Bag) (q : α → Bag) (m : Run World α) (w : World) : Prop :=
  Ends (World.rest L i) F q (m w) (m w)

namespace Settles

variable {p : α → Bag} {q : β → Bag} {m : Run World α} {f : α → Run World β} {e e' : Engine}

/-- What comes to the same end in a plain zone. -/
theorem of_ends {m' : Run World α} (h : w.Rests L i G)
    (hm : (Zone.plain L w).Linked G w w → Ends (Zone.plain L w).bond F p (m w) (m' w)) :
    Settles L i F p m w := by
  have hend := hm h.sound.linked
  have hrests : ∀ {K : Bag} {t t' : World}, (Zone.plain L w).Linked K t t' → t.Rests L i K :=
    fun ht => ⟨ht.sound h.sound, (congrArg Thread.id ht.pinned.thread).trans h.thread⟩
  unfold Settles
  generalize m w = x at hend ⊢
  generalize m' w = x' at hend
  cases hend with
  | ok h => exact .ok ⟨rfl, hrests h⟩
  | raised h => exact .raised ⟨rfl, hrests h⟩
  | aborted h ha => exact .aborted ⟨rfl, hrests h⟩ (Zone.plain_breaks ha)
  | outOfFuel hcalm => exact .outOfFuel (hcalm.imp_left fun hid => hid.trans h.thread)

theorem pure {a : α} (h : w.Rests L i (p a + F)) : Settles L i F p (pure a) w := .ok ⟨rfl, h⟩

theorem bindOf (hm : Settles L i G p m w) (hle : F ≤ G)
    (hf : ∀ a t, m w = .ok a t → t.Rests L i (p a + G) → Settles L i F q (f a) t) :
    Settles L i F q (m >>= f) w := by
  refine Ends.bindOf hm hle fun a t t' ha ht => ?_
  obtain ⟨rfl, ht⟩ := ht
  exact hf a t ha ht

theorem bind (hm : Settles L i G p m w) (hle : F ≤ G)
    (hf : ∀ a t, t.Rests L i (p a + G) → Settles L i F q (f a) t) :
    Settles L i F q (m >>= f) w :=
  hm.bindOf hle fun a t _ ht => hf a t ht

theorem attempt [Holder α] (hm : Settles L i F holds m w) :
    Settles L i F holds (Run.attempt m) w :=
  Ends.attempt hm

/-- Looking at the world. -/
theorem get {f : World → Run World β} (h : Settles L i F q (f w) w) :
    Settles L i F q (get >>= f) w := h

section Machine

variable (hs : Serves (Zone.Level L) e e')

include hs

theorem release {v : Value} (h : w.Rests L i (holds v + F)) :
    Settles L i F holds (e.release v) w :=
  of_ends h fun hw => release_ends hs h.fit hw

theorem releaseAll {vs : List Value} (h : w.Rests L i (holds vs + F)) :
    Settles L i F holds (e.releaseAll vs) w :=
  of_ends h fun hw => releaseAll_ends hs h.fit hw

theorem owning {v : Value} (hm : Settles L i (holds v + F) p m w) :
    Settles L i F p (e.owning v m) w := by
  refine Ends.ensuring hm fun G t t' _ ht => ?_
  obtain ⟨rfl, ht⟩ := ht
  exact release hs ht

end Machine

end Settles

/-! ## Variables and code -/

theorem World.references_setNames (w : World) (names : Names) :
    ({ w with names := names } : World).references (fun _ => False) + holds (w.names.map (·.2))
      = w.references (fun _ => False) + holds (names.map (·.2)) := by
  simp only [World.references]
  abel

/-- Exchanging the variables. -/
theorem World.Sound.setNames (h : w.Sound L F) {names : Names} (hnames : names.Sorted)
    (hle : G + holds (names.map (·.2)) ≤ F + holds (w.names.map (·.2))) :
    ({ w with names := names } : World).Sound L G where
  law := L.keeps h.law ⟨rfl, le_rfl, fun _ _ hg => hg⟩
  tame hL := (h.tame hL).congr rfl (fun _ => rfl) fun _ => rfl
  idle := h.idle
  owned o := by
    have howned := h.owned o
    have hrefs := congrFun (w.references_setNames names) o
    have hG := Bag.apply_le hle o
    have hsame : ({ w with names := names } : World).owners o = w.owners o := by
      cases o <;> rfl
    simp only [Pi.add_apply] at hrefs hG
    rw [hsame]
    omega
  slots := h.slots
  seated o hone := by
    have hin := h.seated o (by cases o <;> exact hone)
    cases o <;> exact hin
  sorted := hnames
  bounded := h.bounded

/-- Adding a code object. -/
theorem World.Sound.newCode (h : w.Sound L F) {c : CodeObject} (hc : L.tame → c.Tame) :
    (w.newCode c).2.Sound L F where
  law := L.keeps h.law ⟨rfl, le_rfl, fun _ _ hg => hg⟩
  tame hL := (h.tame hL).newCode (hc hL)
  idle := h.idle
  owned o := by
    have hsame : (w.newCode c).2.owners o = w.owners o := by
      cases o <;> rfl
    rw [hsame]
    exact h.owned o
  slots := h.slots
  seated o hone := by
    have hin := h.seated o (by cases o <;> exact hone)
    cases o <;> exact hin
  sorted := h.sorted
  bounded := h.bounded

/-! ## New generators and frames -/

namespace World

/-- A frame for the first run of a body holds the arguments. -/
theorem holds_newFrame (code : CodeRef) (args : List Value) :
    holds (Frame.new code args) = holds args := by
  rw [holds_frame]
  simp [Frame.new]

@[simp] theorem frame_newFrame (w : World) (f : Frame) (r : FrameRef) :
    (w.newFrame f).2.frame? r = if r = (w.newFrame f).1 then some f else w.frame? r := by
  simp [frame?, newFrame, Store.content_alloc, FrameRef.ext_iff]

@[simp] theorem owners_newFrame (w : World) (f : Frame) (o : Object) :
    (w.newFrame f).2.owners o = if o = .frame (w.newFrame f).1 then 1 else w.owners o := by
  cases o <;> simp [owners, newFrame, Store.owners_alloc, FrameRef.ext_iff]

/-- A new frame adds what it refers to. -/
theorem references_newFrame (w : World) (f : Frame) :
    (w.newFrame f).2.references (fun _ => False) = w.references (fun _ => False) + holds f := by
  have hframes := Store.contents_alloc (s := w.frames) (p := fun _ => ¬ False) id (some f)
  funext o
  have := congrFun hframes o
  simp only [references, newFrame, Pi.add_apply, holds_some] at this ⊢
  omega

/-- Makes a generator on a frame that it takes over. -/
def adopt (w : World) (g : Generator) : GeneratorRef × World :=
  (⟨w.generators.size⟩, { w with generators := (w.generators.alloc g).2 })

theorem newGenerator_eq (w : World) (code : CodeRef) (args : List Value) (closure : Value) :
    w.newGenerator code args closure =
      (w.newFrame (.new code args)).2.adopt
        ⟨code, closure, some (w.newFrame (.new code args)).1, false⟩ := rfl

@[simp] theorem generator_adopt (w : World) (x : Generator) (g : GeneratorRef) :
    (w.adopt x).2.generator g = if g = (w.adopt x).1 then x else w.generator g := by
  simp [generator, adopt, Store.content_alloc, GeneratorRef.ext_iff]

@[simp] theorem owners_adopt (w : World) (x : Generator) (o : Object) :
    (w.adopt x).2.owners o = if o = .generator (w.adopt x).1 then 1 else w.owners o := by
  cases o <;> simp [owners, adopt, Store.owners_alloc, GeneratorRef.ext_iff]

/-- A new generator adds what it refers to. -/
theorem references_adopt (w : World) (x : Generator) :
    (w.adopt x).2.references (fun _ => False) = w.references (fun _ => False) + holds x := by
  have hgenerators := Store.contents_alloc (s := w.generators) (p := fun _ => ¬ False) id x
  funext o
  have := congrFun hgenerators o
  simp only [references, adopt, Pi.add_apply] at this ⊢
  omega

namespace Sound

/-- A new object has its maker for an owner, and takes over what it refers to. -/
theorem owned_of_new {B : Bag} (h : w.Sound L (B + F)) {o : Object} (ho : w.owners o = 0)
    (howners : ∀ u, t.owners u = if u = o then 1 else w.owners u)
    (hrefs : t.references (fun _ => False) = w.references (fun _ => False) + B) (u : Object) :
    t.references (fun _ => False) u + (.of [o] + F : Bag) u ≤ t.owners u := by
  have howned := h.owned u
  rw [hrefs, howners u]
  simp only [Pi.add_apply] at howned ⊢
  split
  · next heq =>
      subst heq
      rw [Bag.of_singleton_self]
      omega
  · next hne =>
      rw [Bag.of_singleton_ne (Ne.symm hne)]
      omega

/-- Making a frame. -/
theorem newFrame {f : Frame} (h : w.Sound L (holds f + F)) (hf : L.tame → f.Tame) :
    (w.newFrame f).2.Sound L (.of [.frame (w.newFrame f).1] + F) where
  law := L.keeps h.law ⟨rfl, le_rfl, fun _ _ hg => hg⟩
  tame hL := (h.tame hL).newFrame (hf hL)
  idle := h.idle
  owned := h.owned_of_new (Store.owners_of_size_le (s := w.frames) le_rfl) (w.owners_newFrame f)
    (w.references_newFrame f)
  slots := h.slots
  seated o hone := by
    rw [owners_newFrame] at hone
    cases o with
    | frame r =>
        show (w.newFrame f).2.frame? r ≠ none
        rw [frame_newFrame]
        split
        · exact nofun
        · next hne => exact h.seated (.frame r) (by simpa [hne] using hone)
    | iterator r => exact h.seated (.iterator r) (by simpa using hone)
    | _ => trivial
  sorted := h.sorted
  bounded := h.bounded

/-- Making a generator on a frame that no other generator has. -/
theorem adopt {x : Generator} (h : w.Sound L (holds x + F)) (hidle : x.running = false)
    (hslot : ∀ g r, x.frame = some r → (w.generator g).frame ≠ some r) :
    (w.adopt x).2.Sound L (.of [.generator (w.adopt x).1] + F) where
  law := by
    refine L.keeps h.law ⟨rfl, ?_, fun g hg hnone => ?_⟩
    · exact le_trans (Nat.le_succ _) (Store.size_alloc _ _).ge
    · rw [generator_adopt, if_neg]
      · exact hnone
      · rintro rfl
        exact Nat.lt_irrefl _ hg
  tame hL := (h.tame hL).congr rfl (fun _ => rfl) fun _ => rfl
  idle g := by
    rw [generator_adopt]
    split
    · exact hidle
    · exact h.idle g
  owned := h.owned_of_new (Store.owners_of_size_le (s := w.generators) le_rfl) (w.owners_adopt x)
    (w.references_adopt x)
  slots g g' r hg hg' := by
    rw [generator_adopt] at hg hg'
    split at hg <;> split at hg'
    · next heq heq' => rw [heq, heq']
    · exact absurd hg' (hslot g' r hg)
    · exact absurd hg (hslot g r hg')
    · exact h.slots g g' r hg hg'
  seated o hone := by
    rw [owners_adopt] at hone
    cases o with
    | frame r => exact h.seated (.frame r) (by simpa using hone)
    | iterator r => exact h.seated (.iterator r) (by simpa using hone)
    | _ => trivial
  sorted := h.sorted
  bounded := h.bounded

/-- Making a generator for the first run of a body. -/
theorem newGenerator {code : CodeRef} {args : List Value} {closure : Value}
    (h : w.Sound L (holds args + (holds closure + F))) :
    (w.newGenerator code args closure).2.Sound L
      (.of [.generator (w.newGenerator code args closure).1] + F) := by
  have hnew := holds_newFrame code args
  have hframe : (w.newFrame (.new code args)).2.Sound L
      (.of [.frame (w.newFrame (.new code args)).1] + (holds closure + F)) :=
    newFrame (by rwa [hnew]) fun _ => Frame.tame_new code args
  rw [newGenerator_eq]
  refine adopt (hframe.le (le_of_eq ?_)) rfl fun g r hr hg => ?_
  · rw [holds_generatorObject, add_assoc]
    rfl
  · -- nobody refers to the frame yet
    obtain rfl : (w.newFrame (.new code args)).1 = r := by simpa using hr
    have hg : (w.generator g).frame = some (w.newFrame (.new code args)).1 := hg
    have hall : holds (w.generator g) ≤ w.references fun _ => False :=
      World.holds_generator_le fun hh => hh
    have hle := Bag.apply_le hall (.frame (w.newFrame (.new code args)).1)
    have hone : 1 ≤ holds (w.generator g) (.frame (w.newFrame (.new code args)).1) := by
      rw [holds_generatorObject, hg]
      simp [Bag.of_singleton_self]
    have hvacant : w.owners (.frame (w.newFrame (.new code args)).1) = 0 :=
      Store.owners_of_size_le (s := w.frames) le_rfl
    have := h.owned (.frame (w.newFrame (.new code args)).1)
    omega

end Sound

end World

end Resumable
