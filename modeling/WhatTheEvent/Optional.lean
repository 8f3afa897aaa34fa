import WhatTheEvent.Library.Exec
import WhatTheEvent.Library.Pointwise
import WhatTheEvent.Memory

/-!
# Optional values

`Optional<T>` constructs and destroys the object in its storage by hand. In a program over any
number of them, what was constructed and not destroyed is what the engaged ones hold as long as no
engaged one is assigned to an engaged one: the object that was there is not destroyed then.
-/

namespace WhatTheEvent

variable {T : Type}

/-- `Optional<T>`. -/
structure Optional (T : Type) where
  engaged : Bool
  /-- The object that lives in `value_`, if there is one. -/
  value : Option T
  deriving DecidableEq, Repr

/-- A step of a program over optionals, which are numbered in the order of their construction. -/
inductive OptionalAct (T : Type) where
  /-- `Optional()`. -/
  | default
  /-- `Optional(T const&)`. -/
  | copyValue (v : T)
  /-- `Optional(T &&)`. -/
  | moveValue (v : T)
  /-- `Optional(Optional &&)`, from optional `i`. -/
  | move (i : Nat)
  /-- `operator=` on optional `i`, from optional `j`. -/
  | assign (i j : Nat)
  /-- `~Optional`. -/
  | destroy (i : Nat)
  deriving DecidableEq, Repr

/-- The optionals constructed so far, `none` once destroyed, and how many objects were constructed
and destroyed in the storage of optionals. -/
structure Optionals (T : Type) where
  optionals : List (Option (Optional T))
  constructed : Nat
  destroyed : Nat
  deriving DecidableEq, Repr

namespace Optionals

def empty : Optionals T := ⟨[], 0, 0⟩

def get (s : Optionals T) (i : Nat) : Except Fault (Optional T) :=
  match s.optionals[i]? with
  | some (some o) => .ok o
  | some none => .error .useAfterFree
  | none => .error .disabled

/-- `o.value_.value`, where an object has to live. -/
def read (o : Optional T) : Except Fault T :=
  match o.value with
  | some v => .ok v
  | none => .error .useAfterFree

/-- A new optional. -/
def push (s : Optionals T) (o : Optional T) : Optionals T :=
  { s with optionals := s.optionals ++ [some o] }

def set (s : Optionals T) (i : Nat) (o : Option (Optional T)) : Optionals T :=
  { s with optionals := s.optionals.set i o }

/-- `construct` in a new optional. -/
def pushConstruct (s : Optionals T) (v : T) : Optionals T :=
  { s.push ⟨true, some v⟩ with constructed := s.constructed + 1 }

/-- `construct` in optional `i`, whatever lives there. -/
def construct (s : Optionals T) (i : Nat) (v : T) : Optionals T :=
  { s.set i (some ⟨true, some v⟩) with constructed := s.constructed + 1 }

/-- `clear`. -/
def clear (s : Optionals T) (i : Nat) (o : Optional T) : Optionals T :=
  if o.engaged then { s.set i (some ⟨false, none⟩) with destroyed := s.destroyed + 1 } else s

/-- `operator=`. In an assignment to itself the copy constructor would read the object that it
constructs. -/
def assign (s : Optionals T) (i j : Nat) : Except Fault (Optionals T) := do
  let target ← s.get i
  let o ← s.get j
  if !target.engaged && !o.engaged then pure s
  else if target.engaged && !o.engaged then pure (s.clear i target)
  else if i = j then .error .useAfterFree
  else
    let v ← read o
    pure (s.construct i v)

/-- `Optional(Optional &&)`. The source stays engaged, with what `moved` leaves of its value. -/
def move (moved : T → T) (s : Optionals T) (i : Nat) : Except Fault (Optionals T) := do
  let o ← s.get i
  if o.engaged then
    let v ← read o
    pure ((s.set i (some { o with value := some (moved v) })).pushConstruct v)
  else pure (s.push ⟨false, none⟩)

/-- `~Optional`. -/
def destroy (s : Optionals T) (i : Nat) : Except Fault (Optionals T) := do
  let o ← s.get i
  pure ((s.clear i o).set i none)

def step (moved : T → T) (s : Optionals T) : OptionalAct T → Except Fault (Optionals T)
  | .default => .ok (s.push ⟨false, none⟩)
  | .copyValue v => .ok (s.pushConstruct v)
  | .moveValue v => .ok (s.pushConstruct v)
  | .move i => s.move moved i
  | .assign i j => s.assign i j
  | .destroy i => s.destroy i

/-! ### The law -/

/-- The optional has been constructed, and not destroyed. -/
def Live (s : Optionals T) (i : Nat) : Prop := ∃ o, s.get i = .ok o

instance (s : Optionals T) (i : Nat) : Decidable (s.Live i) :=
  match h : s.get i with
  | .ok o => .isTrue ⟨o, h⟩
  | .error _ => .isFalse <| by
    rintro ⟨o, ho⟩
    rw [h] at ho
    cases ho

/-- The optionals that the step names are live. -/
def Legal (s : Optionals T) : OptionalAct T → Prop
  | .move i => s.Live i
  | .assign i j => s.Live i ∧ s.Live j
  | .destroy i => s.Live i
  | _ => True

instance (s : Optionals T) (act : OptionalAct T) : Decidable (s.Legal act) :=
  match act with
  | .default => inferInstanceAs (Decidable True)
  | .copyValue _ => inferInstanceAs (Decidable True)
  | .moveValue _ => inferInstanceAs (Decidable True)
  | .move i => inferInstanceAs (Decidable (s.Live i))
  | .assign i j => inferInstanceAs (Decidable (s.Live i ∧ s.Live j))
  | .destroy i => inferInstanceAs (Decidable (s.Live i))

def slotEngaged : Option (Optional T) → Nat
  | some o => if o.engaged then 1 else 0
  | none => 0

/-- The number of live engaged optionals. -/
def engaged (s : Optionals T) : Nat := (s.optionals.map slotEngaged).sum

/-- The objects constructed and not destroyed are those of the engaged optionals. -/
def Balanced (s : Optionals T) : Prop := s.constructed = s.destroyed + s.engaged

instance (s : Optionals T) : Decidable s.Balanced := inferInstanceAs (Decidable (_ = _))

/-- After the assignment the target is engaged if the source is, and holds its value. -/
def Assigned (s s' : Optionals T) (i j : Nat) : Prop :=
  ∃ o target, s.get j = .ok o ∧ s'.get i = .ok target ∧ target.engaged = o.engaged ∧
    (o.engaged = true → target.value = o.value)

/-- The step is well defined, leaves a balanced state, and assigns what it should. -/
def Lawful (moved : T → T) (s : Optionals T) (act : OptionalAct T) : Prop :=
  ∃ s', s.step moved act = .ok s' ∧ s'.Balanced ∧ ∀ i j, act = .assign i j → s.Assigned s' i j

/-- An engaged optional is assigned to an engaged one. -/
def Overwrites (s : Optionals T) : OptionalAct T → Prop
  | .assign i j => ∃ target o, s.get i = .ok target ∧ s.get j = .ok o ∧
    target.engaged = true ∧ o.engaged = true
  | _ => False

/-! ### Steps -/

variable {s s' : Optionals T} {i j : Nat} {o target : Optional T} {v : T}
  {slot : Option (Optional T)} {act : OptionalAct T} {moved : T → T}

/-- An optional is engaged exactly if an object lives in it. -/
def Sound (s : Optionals T) : Prop :=
  ∀ o, some o ∈ s.optionals → (o.engaged = true ↔ o.value ≠ none)

lemma getElem?_of_get (h : s.get i = .ok o) : s.optionals[i]? = some (some o) := by
  unfold get at h
  split at h
  · rename_i o' hi
    rw [hi, Except.ok.inj h]
  · cases h
  · cases h

lemma mem_of_get (h : s.get i = .ok o) : some o ∈ s.optionals :=
  List.mem_of_getElem? (getElem?_of_get h)

lemma get_set_self (h : s.get i = .ok o) : (s.set i (some target)).get i = .ok target := by
  have hlt := (List.getElem?_eq_some_iff.mp (getElem?_of_get h)).1
  simp [get, set, hlt]

lemma engaged_set (h : s.get i = .ok o) :
    (s.set i slot).engaged + slotEngaged (some o) = s.engaged + slotEngaged slot :=
  Pointwise.sum_map_set (f := slotEngaged) (getElem?_of_get h)

lemma engaged_push : (s.push o).engaged = s.engaged + slotEngaged (some o) := by
  simp [engaged, push]

lemma sound_empty : (empty : Optionals T).Sound := fun _ h => absurd h List.not_mem_nil

lemma Sound.set (h : s.Sound) (ho : ∀ o, slot = some o → (o.engaged = true ↔ o.value ≠ none)) :
    (s.set i slot).Sound := by
  intro o hmem
  rcases List.mem_or_eq_of_mem_set hmem with hmem | heq
  · exact h o hmem
  · exact ho o heq.symm

lemma Sound.push (h : s.Sound) (ho : o.engaged = true ↔ o.value ≠ none) : (s.push o).Sound := by
  intro o' hmem
  rcases List.mem_append.mp hmem with hmem | hmem
  · exact h o' hmem
  · obtain rfl := Option.some.inj (List.mem_singleton.mp hmem)
    exact ho

/-- The value of an engaged optional can be read. -/
lemma Sound.read (h : s.Sound) (ho : s.get i = .ok o) (he : o.engaged = true) :
    ∃ v, o.value = some v ∧ read o = .ok v := by
  obtain ⟨v, hv⟩ := Option.ne_none_iff_exists'.mp ((h o (mem_of_get ho)).mp he)
  exact ⟨v, hv, by rw [Optionals.read, hv]⟩

/-- What the steps that do not overwrite keep. -/
structure Kept (s : Optionals T) : Prop where
  sound : s.Sound
  balanced : s.Balanced

lemma kept_empty : (empty : Optionals T).Kept := ⟨sound_empty, rfl⟩

/-! ### Steps -/

lemma Kept.push (h : s.Kept) : (s.push ⟨false, none⟩).Kept := by
  refine ⟨h.sound.push (by simp), ?_⟩
  unfold Balanced
  rw [engaged_push]
  exact h.balanced

lemma Kept.pushConstruct (h : s.Kept) : (s.pushConstruct v).Kept := by
  refine ⟨h.sound.push (by simp), ?_⟩
  have hbalanced := h.balanced
  have hengaged : (s.pushConstruct v).engaged = s.engaged + 1 := engaged_push
  unfold Balanced at hbalanced ⊢
  rw [hengaged]
  change s.constructed + 1 = s.destroyed + (s.engaged + 1)
  omega

/-- `clear` destroys the object of an engaged optional. -/
lemma Kept.clear (h : s.Kept) (ho : s.get i = .ok o) : (s.clear i o).Kept := by
  unfold Optionals.clear
  split_ifs with he
  · refine ⟨h.sound.set fun o' heq => ?_, ?_⟩
    · obtain rfl := Option.some.inj heq
      simp
    · have hbalanced := h.balanced
      have hengaged : (s.set i (some ⟨false, none⟩)).engaged + slotEngaged (some o) =
        s.engaged := engaged_set ho
      unfold Balanced at hbalanced ⊢
      simp only [slotEngaged, he, if_true] at hengaged
      change s.constructed = s.destroyed + 1 + (s.set i (some ⟨false, none⟩)).engaged
      omega
  · exact h

lemma get_clear (ho : s.get i = .ok o) : ∃ o', (s.clear i o).get i = .ok o' ∧
    o'.engaged = false := by
  unfold Optionals.clear
  split_ifs with he
  · exact ⟨_, get_set_self ho, rfl⟩
  · exact ⟨o, ho, Bool.eq_false_iff.mpr he⟩

/-- An object is constructed in an optional that is not engaged. -/
lemma Kept.construct (h : s.Kept) (ho : s.get i = .ok o) (he : o.engaged = false) :
    (s.construct i v).Kept := by
  refine ⟨h.sound.set fun o' heq => ?_, ?_⟩
  · obtain rfl := Option.some.inj heq
    simp
  · have hbalanced := h.balanced
    have hengaged : (s.set i (some ⟨true, some v⟩)).engaged + slotEngaged (some o) =
      s.engaged + 1 := engaged_set ho
    unfold Balanced at hbalanced ⊢
    simp only [slotEngaged, he, Bool.false_eq_true, if_false] at hengaged
    change s.constructed + 1 = s.destroyed + (s.set i (some ⟨true, some v⟩)).engaged
    omega

/-- An object that is constructed over another one is one too many. -/
lemma not_balanced_construct (h : s.Balanced) (ho : s.get i = .ok o) (he : o.engaged = true) :
    ¬ (s.construct i v).Balanced := by
  have hengaged : (s.set i (some ⟨true, some v⟩)).engaged + slotEngaged (some o) =
    s.engaged + 1 := engaged_set ho
  unfold Balanced at h ⊢
  simp only [slotEngaged, he, if_true] at hengaged
  change ¬ s.constructed + 1 = s.destroyed + (s.set i (some ⟨true, some v⟩)).engaged
  omega

/-- A move leaves the source engaged, with another object in the new optional. -/
lemma Kept.move (h : s.Kept) (ho : s.get i = .ok o) :
    ∃ s', s.move moved i = .ok s' ∧ s'.Kept := by
  unfold Optionals.move
  rw [ho, ok_bind]
  split_ifs with he
  · obtain ⟨v, -, hread⟩ := h.sound.read ho he
    rw [hread, ok_bind]
    have hset : (s.set i (some { o with value := some (moved v) })).Kept := by
      refine ⟨h.sound.set fun o' heq => ?_, ?_⟩
      · obtain rfl := Option.some.inj heq
        simp [he]
      · have hengaged : (s.set i (some { o with value := some (moved v) })).engaged +
          slotEngaged (some o) = s.engaged + slotEngaged (some o) := engaged_set ho
        have hbalanced := h.balanced
        unfold Balanced at hbalanced ⊢
        change s.constructed = s.destroyed + _
        omega
    exact ⟨_, rfl, hset.pushConstruct⟩
  · exact ⟨_, rfl, h.push⟩

lemma Kept.destroy (h : s.Kept) (ho : s.get i = .ok o) :
    ∃ s', s.destroy i = .ok s' ∧ s'.Kept := by
  unfold Optionals.destroy
  rw [ho, ok_bind]
  obtain ⟨o', ho', he⟩ := get_clear ho
  have hclear := h.clear ho
  refine ⟨_, rfl, hclear.sound.set (by simp), ?_⟩
  have hengaged : ((s.clear i o).set i none).engaged + slotEngaged (some o') =
    (s.clear i o).engaged := engaged_set ho'
  have hbalanced := hclear.balanced
  unfold Balanced at hbalanced ⊢
  simp only [slotEngaged, he, Bool.false_eq_true, if_false, add_zero] at hengaged
  rw [hengaged]
  exact hbalanced

/-- An assignment in which the target or the source is not engaged. -/
lemma Kept.assign (h : s.Kept) (htarget : s.get i = .ok target) (ho : s.get j = .ok o)
    (hne : ¬ (target.engaged = true ∧ o.engaged = true)) :
    ∃ s', s.assign i j = .ok s' ∧ s'.Kept ∧ s.Assigned s' i j := by
  unfold Optionals.assign
  rw [htarget, ok_bind, ho, ok_bind]
  cases he : o.engaged with
  | false =>
    cases het : target.engaged with
    | false => exact ⟨s, rfl, h, o, target, ho, htarget, by rw [he, het], by simp [he]⟩
    | true =>
      obtain ⟨o', ho', he'⟩ := get_clear htarget
      exact ⟨_, rfl, h.clear htarget, o, o', ho, ho', by rw [he, he'], by simp [he]⟩
  | true =>
    cases het : target.engaged with
    | false =>
      have hij : i ≠ j := by
        rintro rfl
        rw [htarget] at ho
        rw [Except.ok.inj ho, he] at het
        cases het
      obtain ⟨v, hv, hread⟩ := h.sound.read ho he
      simp only [Bool.not_false, Bool.not_true, Bool.and_false, Bool.false_eq_true,
        if_false, if_neg hij, hread, ok_bind]
      refine ⟨_, rfl, h.construct htarget het, o, ⟨true, some v⟩, ho, ?_, he.symm, ?_⟩
      · exact get_set_self htarget
      · exact fun _ => hv.symm
    | true => exact absurd ⟨het, he⟩ hne

/-- An engaged optional that is assigned to an engaged one leaves an object behind. -/
lemma Kept.not_balanced_assign (h : s.Kept) (htarget : s.get i = .ok target)
    (ho : s.get j = .ok o) (het : target.engaged = true) (he : o.engaged = true)
    (hs : s.assign i j = .ok s') : ¬ s'.Balanced := by
  unfold Optionals.assign at hs
  obtain ⟨v, -, hread⟩ := h.sound.read ho he
  rw [htarget, ok_bind, ho, ok_bind, hread] at hs
  simp only [het, he, Bool.not_true, Bool.and_false, Bool.false_eq_true, if_false, ok_bind] at hs
  split_ifs at hs
  obtain rfl := Except.ok.inj hs
  exact not_balanced_construct h.balanced htarget het

/-- What a step that does not overwrite does. -/
lemma Kept.step (h : s.Kept) (hlegal : s.Legal act) (hne : ¬ s.Overwrites act) :
    ∃ s', s.step moved act = .ok s' ∧ s'.Kept ∧ ∀ i j, act = .assign i j → s.Assigned s' i j := by
  cases act with
  | default => exact ⟨_, rfl, h.push, by simp⟩
  | copyValue v => exact ⟨_, rfl, h.pushConstruct, by simp⟩
  | moveValue v => exact ⟨_, rfl, h.pushConstruct, by simp⟩
  | move i =>
    obtain ⟨o, ho⟩ := hlegal
    obtain ⟨s', hs, hkept⟩ := h.move ho
    exact ⟨s', hs, hkept, by simp⟩
  | assign i j =>
    obtain ⟨⟨target, htarget⟩, o, ho⟩ := hlegal
    obtain ⟨s', hs, hkept, hassigned⟩ := h.assign htarget ho
      fun hboth => hne ⟨target, o, htarget, ho, hboth⟩
    refine ⟨s', hs, hkept, fun i' j' heq => ?_⟩
    obtain ⟨rfl, rfl⟩ := OptionalAct.assign.inj heq
    exact hassigned
  | destroy i =>
    obtain ⟨o, ho⟩ := hlegal
    obtain ⟨s', hs, hkept⟩ := h.destroy ho
    exact ⟨s', hs, hkept, by simp⟩

lemma Kept.not_lawful (h : s.Kept) (hover : s.Overwrites act) : ¬ s.Lawful moved act := by
  cases act with
  | assign i j =>
    obtain ⟨target, o, htarget, ho, het, he⟩ := hover
    rintro ⟨s', hs, hbalanced, -⟩
    exact h.not_balanced_assign htarget ho het he hs hbalanced
  | _ => exact hover.elim

/-! ### Runs -/

/-- The steps of a run are lawful as long as no engaged optional is assigned to an engaged one. -/
theorem lawful_iff_not_overwrites (moved : T → T) (acts : List (OptionalAct T))
    (hlegal : Exec.Along (step moved) Legal empty acts) :
    Exec.Along (step moved) (Lawful moved) empty acts ↔
      Exec.Along (step moved) (fun s act => ¬ s.Overwrites act) empty acts := by
  refine Exec.along_iff Kept ?_ ?_ kept_empty hlegal
  · intro s act hkept hact
    constructor
    · exact fun hlawful hover => hkept.not_lawful hover hlawful
    · intro hne
      obtain ⟨s', hs, hkept', hassigned⟩ := hkept.step hact hne
      exact ⟨s', hs, hkept'.balanced, hassigned⟩
  · intro s act s' hkept hact hne hs
    obtain ⟨s₁, hs₁, hkept₁, -⟩ := hkept.step hact hne
    rw [hs] at hs₁
    obtain rfl := Except.ok.inj hs₁
    exact hkept₁

/-- Four optionals, an assignment to an empty one and one from an empty one. -/
theorem lawful_program :
    Exec.Along (step fun _ => 0) (Lawful fun _ => 0) (empty : Optionals Nat)
      [.default, .copyValue 3, .moveValue 4, .assign 0 1, .move 2, .destroy 1, .default,
        .assign 2 4, .assign 4 2, .destroy 0] := by
  refine (lawful_iff_not_overwrites (fun _ => 0) _ (by decide)).mpr ?_
  simp [Exec.Along, step, Overwrites, Optionals.assign, Optionals.move, Optionals.destroy,
    Optionals.clear, Optionals.construct, Optionals.pushConstruct, Optionals.push, Optionals.set,
    get, read, empty]

/-- After the assignment of an engaged optional to another one, three objects have been constructed
and none destroyed. -/
theorem not_lawful : ¬ ∀ acts : List (OptionalAct Nat),
    Exec.Along (step id) Legal empty acts → Exec.Along (step id) (Lawful id) empty acts := by
  intro h
  obtain ⟨-, -, ⟨s', hs, hbalanced, -⟩, -⟩ := h [.copyValue 1, .copyValue 2, .assign 0 1]
    (by decide)
  obtain rfl := Except.ok.inj hs
  exact absurd hbalanced (by decide)

end Optionals

end WhatTheEvent
