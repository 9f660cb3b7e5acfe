import CommandScript.Proofs.Assembly.Sight
import CommandScript.Proofs.Engine.Relocation
import CommandScript.Proofs.Script.Contexts
import CommandScript.Proofs.Script.Passes
import CommandScript.Proofs.Store.Operations

/-!
# Assemblies that mirror each other

Two walks that come to the same lines at different indices are in assemblies that mirror each other
(`Assembly.Mirror`): what the one holds under an index `i`, the other holds under `place i`, as far as
the lines to come may look at it. A line does the same to both (`Assembly.Mirror.readLine`).
-/

namespace CommandScript

section Put

variable {κ ι α β : Type} [DecidableEq κ] [DecidableEq ι] {g : κ → ι} {f : α → β} {m : Assoc κ α}
  {m' : Assoc ι β} {i k : κ}

/-- What is put under a key in one map is put under its image in another. -/
theorem Assoc.get?_put_map (hg : ∀ {i j}, g i = g j → i = j) (v : α)
    (h : m'.get? (g i) = (m.get? i).map f) :
    (m'.put (g k) (f v)).get? (g i) = ((m.put k v).get? i).map f := by
  rw [get?_put, get?_put]
  by_cases hk : k = i
  · rw [if_pos hk, if_pos (congrArg g hk), Option.map_some]
  · rw [if_neg hk, if_neg (mt hg hk), h]

end Put

/-- The entry stands in another place, on another line, and does the same. -/
structure Entry.Moved (place : Nat → Nat) (e e' : Entry) : Prop where
  index : e'.index = place e.index
  left : 0 < e.line
  right : 0 < e'.line
  command : e'.command = e.command.moved place

namespace Assembly

open Script

/-- What an assembly holds under an index. -/
structure Slot where
  entry : Option Entry
  /-- The chain that begins there. -/
  chain : Option Chain
  /-- The beginning of the chain that the command belongs to. -/
  member : Option Nat
  /-- The loop of a name that begins there. -/
  loop : String → Option Loop

/-- What an assembly holds for the name of a subroutine. -/
@[ext]
structure Part where
  locals : String → Option Variable
  /-- Where the subroutine begins and ends, if it is declared. -/
  range : Option (Option Nat × Option Nat)

def slot (a : Assembly) (k : Nat) : Slot where
  entry := a.commands[k]?
  chain := a.chains.chains.get? k
  member := a.chains.members.get? k
  loop name := Assoc.get? ⟨name, k⟩ a.loops

/-- Where a subroutine begins and ends. -/
def rangeOf (s : Subroutine) : Option Nat × Option Nat :=
  (s.startIndex, s.endIndex)

def part (a : Assembly) (name : String) : Part where
  locals x := a.memory.store.locals.get? (name, x)
  range := (a.subroutines.get? name).map rangeOf

def rangeMoved (place : Nat → Nat) (r : Option Nat × Option Nat) : Option Nat × Option Nat :=
  (r.1.map place, r.2.map place)

def Part.moved (place : Nat → Nat) (p : Part) : Part :=
  { p with range := p.range.map (rangeMoved place) }

structure Slot.Moved (place : Nat → Nat) (s s' : Slot) : Prop where
  entry : Option.Rel (Entry.Moved place) s.entry s'.entry
  chain : s'.chain = s.chain.map (Chain.moved place)
  member : s'.member = s.member.map place
  loop : ∀ name, s'.loop name = (s.loop name).map (Loop.moved place)

/-- The tables of chains say the same under the keys. -/
structure MirrorChains (place : Nat → Nat) (keys : Nat → Prop) (t t' : ChainTable) : Prop where
  chains : ∀ {i}, keys i → t'.chains.get? (place i) = (t.chains.get? i).map (Chain.moved place)
  members : ∀ {i}, keys i → t'.members.get? (place i) = (t.members.get? i).map place
  closed : ∀ {i m}, keys i → t.members.get? i = some m → keys m

/-- The tables of loops say the same under the keys. -/
def MirrorLoops (place : Nat → Nat) (keys : Nat → Prop) (t t' : LoopTable) : Prop :=
  ∀ id : LoopId, keys id.index →
    Assoc.get? (id.moved place) t' = (Assoc.get? id t).map (Loop.moved place)

/-- The assemblies, of `k` and of `j` commands, mirror each other under the indices in `keys` and for
the names in `names`; the blocks that are open lie there. -/
structure Mirror (place : Nat → Nat) (keys : Nat → Prop) (names : String → Prop) (k j : Nat)
    (a b : Assembly) : Prop where
  left : a.index = k
  right : b.index = j
  current : b.current = a.current
  inStartup : b.inStartup = a.inStartup
  owned : names a.owner
  openChains : b.openChains = a.openChains.map place
  openLoops : b.openLoops = a.openLoops.map (LoopId.moved place)
  chainKeys : ∀ i ∈ a.openChains, keys i
  loopKeys : ∀ id ∈ a.openLoops, keys id.index
  memberKeys : ∀ {i m}, keys i → a.chains.members.get? i = some m → keys m
  slots : ∀ {i}, keys i → Slot.Moved place (a.slot i) (b.slot (place i))
  parts : ∀ {name}, names name → b.part name = (a.part name).moved place
  globals : ∀ name, b.memory.store.globals.get? name = a.memory.store.globals.get? name
  declared : ∀ name, b.subroutines.contains name = a.subroutines.contains name

section Mirror

variable {place : Nat → Nat} {keys : Nat → Prop} {names : String → Prop} {k j : Nat} {a b : Assembly}

namespace Mirror

/-! ### What the assemblies know -/

theorem owner_eq (h : Mirror place keys names k j a b) : b.owner = a.owner := by
  rw [owner, h.current, owner]

theorem locals_eq (h : Mirror place keys names k j a b) {name : String} (hname : names name)
    (x : String) : b.memory.store.locals.get? (name, x) = a.memory.store.locals.get? (name, x) :=
  congrFun (congrArg Part.locals (h.parts hname)) x

theorem find?_eq (h : Mirror place keys names k j a b) (x : String) :
    b.memory.store.find? x a.owner = a.memory.store.find? x a.owner := by
  rw [Store.find?, Store.find?, h.locals_eq h.owned, h.globals]

theorem isVisible_eq (h : Mirror place keys names k j a b) (x : String) :
    b.memory.store.isVisible x a.owner = a.memory.store.isVisible x a.owner := by
  rw [Store.isVisible, Store.isVisible, h.find?_eq]

theorem sees (h : Mirror place keys names k j a b) : a.context.Sees b.context where
  isLoop := by
    funext name
    show (b.openLoops.any fun id => id.name == name) = a.openLoops.any fun id => id.name == name
    rw [h.openLoops, List.any_map]
    rfl
  typeOf := by
    funext name
    show b.memory.store.typeOf name b.owner = a.memory.store.typeOf name a.owner
    rw [h.owner_eq]
    unfold Store.typeOf Store.get
    rw [h.find?_eq]

/-- Inside another loop the lines see the same again. -/
theorem sees_inside (h : Mirror place keys names k j a b) (name : String) (i i' : Nat) :
    { a.context with loops := ⟨name, i⟩ :: a.openLoops }.Sees
      { b.context with loops := ⟨name, i'⟩ :: b.openLoops } where
  isLoop := by
    funext x
    exact congrArg ((name == x) || ·) (congrFun h.sees.isLoop x)
  typeOf := h.sees.typeOf

theorem range_eq (h : Mirror place keys names k j a b) {name : String} (hname : names name) :
    (b.subroutines.get? name).map rangeOf =
      ((a.subroutines.get? name).map rangeOf).map (rangeMoved place) :=
  congrArg Part.range (h.parts hname)

/-- The chain that a member belongs to. -/
theorem meets_chainOf (h : Mirror place keys names k j a b) {i : Nat} (hi : keys i) :
    Checked.Meets (fun c c' => c' = c.moved place) (a.chains.chainOf i)
      (b.chains.chainOf (place i)) := by
  have hmember : b.chains.members.get? (place i) = (a.chains.members.get? i).map place :=
    (h.slots hi).member
  unfold ChainTable.chainOf
  rw [hmember]
  cases hm : a.chains.members.get? i with
  | none => exact Checked.meets_fail
  | some m =>
    have hchain : b.chains.chains.get? (place m) = (a.chains.chains.get? m).map (Chain.moved place) :=
      (h.slots (h.memberKeys hi hm)).chain
    rw [Option.map_some, Option.bind_some, Option.bind_some, hchain]
    cases a.chains.chains.get? m with
    | none => exact Checked.meets_fail
    | some c => exact .ok rfl

theorem meets_checkChainLevel (h : Mirror place keys names k j a b) (keyword : Keyword) {i : Nat}
    (hi : keys i) : Checked.Meets Eq (a.checkChainLevel keyword i)
      (b.checkChainLevel keyword (place i)) := by
  refine (h.meets_chainOf hi).bind ?_
  rintro c _ rfl
  show Checked.Meets Eq (if c.loopLevel ≠ a.openLoops.length then _ else _)
    (if c.loopLevel ≠ b.openLoops.length then _ else _)
  rw [h.openLoops, List.length_map]
  exact Checked.meets_ite (fun _ => Checked.meets_fail) fun _ => .ok rfl

/-! ### Changes -/

theorem chains (h : Mirror place keys names k j a b) : MirrorChains place keys a.chains b.chains :=
  ⟨fun hi => (h.slots hi).chain, fun hi => (h.slots hi).member, h.memberKeys⟩

theorem loops (h : Mirror place keys names k j a b) : MirrorLoops place keys a.loops b.loops :=
  fun _ hid => (h.slots hid).loop _

theorem withChains (h : Mirror place keys names k j a b) {t t' : ChainTable}
    (ht : MirrorChains place keys t t') :
    Mirror place keys names k j { a with chains := t } { b with chains := t' } :=
  { h with
    memberKeys := ht.closed
    slots := fun hi => { h.slots hi with chain := ht.chains hi, member := ht.members hi } }

theorem withLoops (h : Mirror place keys names k j a b) {t t' : LoopTable}
    (ht : MirrorLoops place keys t t') :
    Mirror place keys names k j { a with loops := t } { b with loops := t' } :=
  { h with slots := fun {i} hi => { h.slots hi with loop := fun name => ht ⟨name, i⟩ hi } }

theorem withOpenChains (h : Mirror place keys names k j a b) (is : List Nat)
    (his : ∀ i ∈ is, keys i) : Mirror place keys names k j { a with openChains := is }
      { b with openChains := is.map place } :=
  { h with openChains := rfl, chainKeys := his }

theorem withOpenLoops (h : Mirror place keys names k j a b) (ids : List LoopId)
    (hids : ∀ id ∈ ids, keys id.index) : Mirror place keys names k j { a with openLoops := ids }
      { b with openLoops := ids.map (LoopId.moved place) } :=
  { h with openLoops := rfl, loopKeys := hids }

/-- A change of a subroutine that keeps its name. -/
theorem withSubroutine (h : Mirror place keys names k j a b) (name : String)
    {f g : Subroutine → Subroutine} (hf : ∀ s, (f s).name = s.name) (hg : ∀ s, (g s).name = s.name)
    (hfg : ∀ s s', rangeOf s' = rangeMoved place (rangeOf s) →
      rangeOf (g s') = rangeMoved place (rangeOf (f s))) :
    Mirror place keys names k j { a with subroutines := a.subroutines.update name f }
      { b with subroutines := b.subroutines.update name g } := by
  refine { h with parts := fun {other} hother => ?_, declared := fun other => ?_ }
  · have hrange := congrArg Part.range (h.parts hother)
    have hlocals := congrArg Part.locals (h.parts hother)
    refine Part.ext hlocals ?_
    unfold part Part.moved at hrange ⊢
    dsimp only at hrange ⊢
    rw [SubroutineTable.get?_update _ _ _ hg, SubroutineTable.get?_update _ _ _ hf]
    revert hrange
    cases a.subroutines.get? other <;> cases b.subroutines.get? other <;> intro hrange <;>
      simp only [Option.map_none, Option.map_some, Option.some.injEq, reduceCtorEq] at hrange ⊢
    split
    · exact hfg _ _ hrange
    · exact hrange
  · show SubroutineTable.contains _ _ = SubroutineTable.contains _ _
    rw [SubroutineTable.contains_update _ _ _ hg, SubroutineTable.contains_update _ _ _ hf, h.declared]

end Mirror

/-! ### Tables -/

section Tables

variable (hinj : ∀ {x y}, place x = place y → x = y) {t t' : ChainTable} {u u' : LoopTable}

include hinj

/-- The chain at `i` becomes another one, and `x` a member of it. -/
theorem MirrorChains.put (h : MirrorChains place keys t t') {i : Nat} (hi : keys i) (x : Nat)
    (c : Chain) : MirrorChains place keys ⟨t.chains.put i c, t.members.put x i⟩
      ⟨t'.chains.put (place i) (c.moved place), t'.members.put (place x) (place i)⟩ where
  chains hy := Assoc.get?_put_map hinj c (h.chains hy)
  members hy := Assoc.get?_put_map hinj i (h.members hy)
  closed {y m} hy hm := by
    rw [Assoc.get?_put] at hm
    split at hm
    · cases hm
      exact hi
    · exact h.closed hy hm

theorem MirrorChains.addBranch (h : MirrorChains place keys t t') {i : Nat} (hi : keys i) (x : Nat)
    (isElse : Bool) : Checked.Meets (MirrorChains place keys) (t.addBranch i x isElse)
      (t'.addBranch (place i) (place x) isElse) := by
  unfold ChainTable.addBranch
  rw [h.chains hi]
  cases t.chains.get? i with
  | none => exact Checked.meets_fail
  | some c =>
    have helse : (c.moved place).elseIndex.isSome = c.elseIndex.isSome := Option.isSome_map
    dsimp only [Option.map_some]
    rw [helse]
    refine Checked.meets_ite (fun _ => Checked.meets_fail) fun _ => .ok ?_
    have hput := h.put hinj hi x
      { c with branches := c.branches ++ [x], elseIndex := if isElse then some x else none }
    have hmoved : Chain.moved place
        { c with branches := c.branches ++ [x], elseIndex := if isElse then some x else none } =
        { c.moved place with
          branches := (c.moved place).branches ++ [place x]
          elseIndex := if isElse then some (place x) else none } := by
      cases isElse <;> simp [Chain.moved]
    rwa [hmoved] at hput

theorem MirrorChains.finish (h : MirrorChains place keys t t') {i : Nat} (hi : keys i) (x : Nat) :
    Checked.Meets (MirrorChains place keys) (t.finish i x) (t'.finish (place i) (place x)) := by
  unfold ChainTable.finish
  rw [h.chains hi]
  cases t.chains.get? i with
  | none => exact Checked.meets_fail
  | some c => exact .ok (h.put hinj hi x { c with endIndex := some x })

theorem moved_id_inj {id other : LoopId} (h : id.moved place = other.moved place) : id = other := by
  obtain ⟨name, i⟩ := id
  obtain ⟨name', i'⟩ := other
  simp only [LoopId.moved, LoopId.mk.injEq] at h ⊢
  exact ⟨h.1, hinj h.2⟩

theorem MirrorLoops.put (h : MirrorLoops place keys u u') (id : LoopId) (loop : Loop) :
    MirrorLoops place keys (Assoc.put id loop u)
      (Assoc.put (id.moved place) (loop.moved place) u') :=
  fun other hid => Assoc.get?_put_map (moved_id_inj hinj) loop (h other hid)

theorem MirrorLoops.finish (h : MirrorLoops place keys u u') {id : LoopId} (hid : keys id.index)
    (x : Nat) : Checked.Meets (MirrorLoops place keys) (LoopTable.finish u id x)
      (LoopTable.finish u' (id.moved place) (place x)) := by
  unfold LoopTable.finish
  rw [h id hid]
  cases Assoc.get? id u with
  | none => exact Checked.meets_fail
  | some loop => exact .ok (h.put hinj id { loop with endIndex := some x })

omit hinj in
theorem MirrorLoops.loop (h : MirrorLoops place keys u u') {id : LoopId} (hid : keys id.index) :
    Checked.Meets (fun l l' => l' = l.moved place) (LoopTable.loop u id)
      (LoopTable.loop u' (id.moved place)) := by
  unfold LoopTable.loop
  rw [h id hid]
  cases Assoc.get? id u with
  | none => exact Checked.meets_fail
  | some loop => exact .ok rfl

end Tables

/-! ### Reading -/

section Reading

variable (hinj : ∀ {x y}, place x = place y → x = y)

theorem relates_failCompile {α β : Type} {S : α → β → Prop} {d d' : String} :
    Relates (Mirror place keys names k j) S (failCompile d) (failCompile d') :=
  relates_throw rfl

theorem relates_failCompile_bind {α β γ δ : Type} {T : γ → δ → Prop} {d d' : String}
    {f : α → AssemblyM γ} {g : β → AssemblyM δ} :
    Relates (Mirror place keys names k j) T (failCompile d >>= f) (failCompile d' >>= g) :=
  relates_throw_bind rfl

theorem relates_allocateAll (type : ValueType) (xs : List String) :
    Relates (Mirror place keys names k j) Eq (allocateAll type xs) (allocateAll type xs) := by
  induction xs with
  | nil => exact couples_pure.relates
  | cons x xs ih =>
    refine relates_get_bind fun a b h => ?_
    dsimp only
    rw [h.sees.isLoop]
    refine relates_ite Iff.rfl (fun _ => relates_throw_bind rfl) fun _ => ?_
    rw [h.owner_eq]
    refine relates_lift_bind (Memory.meets_allocate (h.globals x) fun _ => h.locals_eq h.owned x) ?_
    rintro m m' ⟨hm, hm'⟩
    refine (couples_set ?_).bind_relates fun _ => ih
    refine { h with parts := fun {name} hname => ?_, globals := fun y => ?_ }
    · have hlocals := congrArg Part.locals (h.parts hname)
      have hrange := congrArg Part.range (h.parts hname)
      refine Part.ext (funext fun y => ?_) hrange
      show m'.store.locals.get? (name, y) = m.store.locals.get? (name, y)
      rw [hm, hm', Store.allocated, Store.allocated, Assoc.get?_put, Assoc.get?_put]
      exact congrArg (fun v => if (a.owner, x) = (name, y) then _ else v) (congrFun hlocals y)
    · show m'.store.globals.get? y = m.store.globals.get? y
      rw [hm, hm']
      exact h.globals y

theorem relates_readAllocate (rest : String) :
    Relates (Mirror place keys names k j) (fun c c' => c' = c.moved place) (readAllocate rest)
      (readAllocate rest) := by
  refine couples_lift.bind_relates fun ⟨scope, type, xs⟩ => ?_
  refine relates_ite Iff.rfl (fun _ => (relates_allocateAll type xs).bind fun _ _ _ => ?_) fun _ => ?_
  · exact relates_pure rfl
  · exact relates_pure rfl

/-! #### Chains -/

theorem relates_innermostChain (keyword : Keyword) : Relates (Mirror place keys names k j)
    (fun i i' => i' = place i ∧ keys i) (innermostChain keyword) (innermostChain keyword) := by
  refine relates_get_bind fun a b h => ?_
  rw [h.openChains]
  cases hopen : a.openChains with
  | nil => exact relates_failCompile
  | cons i outer => exact relates_pure ⟨rfl, h.chainKeys i (hopen ▸ List.mem_cons_self)⟩

section Place

include hinj

theorem couples_beginChain (hkey : keys k) :
    Couples (Mirror place keys names k (place k)) beginChain beginChain := by
  refine couples_modify fun a b h => ?_
  have hlevel : b.openLoops.length = a.openLoops.length := by rw [h.openLoops, List.length_map]
  have hopen := h.withOpenChains (k :: a.openChains)
    (List.forall_mem_cons.mpr ⟨hkey, h.chainKeys⟩)
  rw [List.map_cons, ← h.openChains] at hopen
  rw [h.left, h.right, hlevel]
  exact hopen.withChains
    (h.chains.put hinj hkey k { ifIndex := k, loopLevel := a.openLoops.length })

theorem relates_addBranch (keyword : Keyword) (isElse : Bool) :
    Relates (Mirror place keys names k (place k)) Eq (addBranch keyword isElse)
      (addBranch keyword isElse) := by
  refine (relates_innermostChain keyword).bind ?_
  rintro i _ ⟨rfl, hi⟩
  refine relates_get_bind fun a b h => ?_
  refine relates_lift_bind (h.meets_checkChainLevel keyword hi) fun _ _ _ => ?_
  rw [h.left, h.right]
  refine relates_lift_bind (h.chains.addBranch hinj hi k isElse) fun t t' ht => ?_
  exact (couples_set (h.withChains ht)).relates

theorem relates_endChain :
    Relates (Mirror place keys names k (place k)) Eq endChain endChain := by
  refine (relates_innermostChain .endIf).bind ?_
  rintro i _ ⟨rfl, hi⟩
  refine relates_get_bind fun a b h => ?_
  have hclose := h.withOpenChains a.openChains.tail
    fun i hi => h.chainKeys i (List.mem_of_mem_tail hi)
  rw [List.map_tail, ← h.openChains] at hclose
  refine (couples_set hclose).bind_relates fun _ => ?_
  rw [h.left, h.right]
  refine relates_lift_bind (h.chains.finish hinj hi k) fun t t' ht => ?_
  refine (couples_modify fun a b h => h.withChains ht).bind_relates fun _ => ?_
  exact relates_lift (h.meets_checkChainLevel .endIf hi)

/-! #### Loops -/

omit hinj in
theorem relates_innermostLoop (keyword : Keyword) : Relates (Mirror place keys names k j)
    (fun id id' => id' = id.moved place ∧ keys id.index) (innermostLoop keyword)
    (innermostLoop keyword) := by
  refine relates_get_bind fun a b h => ?_
  rw [h.openLoops]
  cases hopen : a.openLoops with
  | nil => exact relates_failCompile
  | cons id outer => exact relates_pure ⟨rfl, h.loopKeys id (hopen ▸ List.mem_cons_self)⟩

theorem relates_beginLoop (hkey : keys k) (rest : String) :
    Relates (Mirror place keys names k (place k)) (fun c c' => c' = c.moved place) (beginLoop rest)
      (beginLoop rest) := by
  refine couples_lift.bind_relates fun parts => relates_get_bind fun a b h => ?_
  have hlevel : b.openChains.length = a.openChains.length := by rw [h.openChains, List.length_map]
  dsimp only
  rw [h.sees.isLoop, h.owner_eq, h.isVisible_eq, h.sees.readFormula, h.left, h.right, hlevel]
  refine relates_ite Iff.rfl (fun _ => relates_failCompile_bind) fun _ => ?_
  refine relates_ite Iff.rfl (fun _ => relates_failCompile_bind) fun _ => ?_
  refine couples_lift.bind_relates fun start => ?_
  rw [show b.context.loops = b.openLoops from rfl, show a.context.loops = a.openLoops from rfl,
    (h.sees_inside parts.name k (place k)).readFormula]
  refine couples_lift.bind_relates fun stop => ?_
  have hloop (step : Formula) : Mirror place keys names k (place k)
      { a with
        loops := a.loops.add
          ⟨⟨parts.name, k⟩, start, stop, step, parts.test, none, a.openChains.length⟩
        openLoops := ⟨parts.name, k⟩ :: a.openLoops }
      { b with
        loops := b.loops.add
          ⟨⟨parts.name, place k⟩, start, stop, step, parts.test, none, a.openChains.length⟩
        openLoops := ⟨parts.name, place k⟩ :: b.openLoops } := by
    have hopen := h.withOpenLoops (⟨parts.name, k⟩ :: a.openLoops)
      (List.forall_mem_cons.mpr ⟨hkey, h.loopKeys⟩)
    rw [List.map_cons, ← h.openLoops] at hopen
    exact hopen.withLoops (MirrorLoops.put hinj h.loops ⟨parts.name, k⟩ _)
  cases parts.step with
  | none =>
    exact couples_pure.bind_relates fun step =>
      (couples_set (hloop step)).bind_relates fun _ => relates_pure rfl
  | some text =>
    exact couples_lift.bind_relates fun step =>
      (couples_set (hloop step)).bind_relates fun _ => relates_pure rfl

theorem relates_endLoop :
    Relates (Mirror place keys names k (place k)) (fun c c' => c' = c.moved place) endLoop endLoop := by
  refine relates_get_bind fun a b h => ?_
  rw [h.left, h.right, h.openLoops]
  cases hopen : a.openLoops with
  | nil => exact relates_failCompile
  | cons id outer =>
    have hkeys := List.forall_mem_cons.mp (hopen ▸ h.loopKeys)
    refine (couples_set (h.withOpenLoops _ hkeys.2)).bind_relates fun _ => ?_
    refine relates_lift_bind (MirrorLoops.finish hinj h.loops hkeys.1 k) fun t t' ht => ?_
    refine (couples_modify fun a b h => h.withLoops ht).bind_relates fun _ => ?_
    refine relates_lift_bind (MirrorLoops.loop ht hkeys.1) ?_
    rintro loop _ rfl
    rw [h.openChains, List.length_map]
    exact relates_ite Iff.rfl (fun _ => relates_failCompile_bind) fun _ => relates_pure rfl

/-! #### Subroutines -/

omit hinj

theorem relates_beginSub {rest : String} (hname : names rest) :
    Relates (Mirror place keys names k (place k)) (fun c c' => c' = c.moved place) (beginSub rest)
      (beginSub rest) := by
  refine relates_same_bind fun name hok => ?_
  obtain ⟨rfl, -⟩ := readSubName_ok hok
  refine relates_get_bind fun a b h => ?_
  rw [h.current, h.openChains, h.openLoops, List.isEmpty_map, List.isEmpty_map, h.left, h.right]
  cases a.current with
  | some outer => exact relates_throw_bind rfl
  | none =>
    refine relates_ite Iff.rfl (fun _ => relates_failCompile_bind) fun _ => ?_
    have hget : Checked.Meets (fun s s' => rangeOf s' = rangeMoved place (rangeOf s))
        (a.subroutines.get name) (b.subroutines.get name) := by
      have hrange := h.range_eq hname
      unfold SubroutineTable.get
      revert hrange
      cases a.subroutines.get? name <;> cases b.subroutines.get? name <;> intro hrange <;>
        simp only [Option.map_none, Option.map_some, Option.some.injEq, reduceCtorEq] at hrange
      · exact Checked.meets_fail
      · exact .ok hrange
    refine relates_lift_bind hget fun s s' hss => ?_
    have hstart : s'.startIndex.isSome = s.startIndex.isSome := by
      rw [show s'.startIndex = s.startIndex.map place from congrArg Prod.fst hss, Option.isSome_map]
    rw [hstart]
    refine relates_ite Iff.rfl (fun _ => relates_failCompile_bind) fun _ => ?_
    have hbegun := h.withSubroutine name (f := fun s => { s with startIndex := some k })
      (g := fun s => { s with startIndex := some (place k) }) (fun _ => rfl) (fun _ => rfl)
      fun s s' hss => congrArg (fun r : Option Nat × Option Nat => (some (place k), r.2)) hss
    refine (couples_set ?_).bind_relates fun _ => relates_pure rfl
    rw [← h.openChains, ← h.openLoops]
    exact { hbegun with current := rfl, owned := hname }

theorem relates_endSub (hmain : names mainOwner) :
    Relates (Mirror place keys names k (place k)) (fun c c' => c' = c.moved place) endSub endSub := by
  refine relates_get_bind fun a b h => ?_
  rw [h.current, h.left, h.right]
  cases a.current with
  | none => exact relates_throw rfl
  | some name =>
    have hended := h.withSubroutine name (f := fun s => { s with endIndex := some k })
      (g := fun s => { s with endIndex := some (place k) }) (fun _ => rfl) (fun _ => rfl)
      fun s s' hss => congrArg (fun r : Option Nat × Option Nat => (r.1, some (place k))) hss
    refine (couples_set ?_).bind_relates fun _ => ?_
    · exact { hended with
        current := rfl, owned := hmain, openChains := rfl, openLoops := rfl
        chainKeys := fun _ hi => absurd hi List.not_mem_nil
        loopKeys := fun _ hid => absurd hid List.not_mem_nil }
    · rw [h.openChains, h.openLoops, List.isEmpty_map, List.isEmpty_map]
      exact relates_ite Iff.rfl (fun _ => relates_failCompile_bind) fun _ => relates_pure rfl

theorem relates_readGosub (rest : String) :
    Relates (Mirror place keys names k (place k)) (fun c c' => c' = c.moved place) (readGosub rest)
      (readGosub rest) := by
  refine couples_lift.bind_relates fun name => relates_get_bind fun a b h => ?_
  rw [h.declared, h.left, h.right]
  refine relates_ite Iff.rfl (fun _ => relates_throw_bind rfl) fun _ => ?_
  refine (couples_set ?_).bind_relates fun _ => relates_pure rfl
  exact h.withSubroutine name (fun _ => rfl) (fun _ => rfl) fun _ _ hss => hss

end Place

/-! #### Lines -/

theorem relates_some {x y : AssemblyM Command} (h : Relates (Mirror place keys names k j)
      (fun c c' => c' = c.moved place) x y) : Relates (Mirror place keys names k j)
    (fun r r' => r' = r.map (Command.moved place)) (some <$> x) (some <$> y) := by
  simp only [map_eq_pure_bind]
  refine h.bind ?_
  rintro c _ rfl
  exact relates_pure rfl

/-- A command that belongs to no block does not tell its place. -/
theorem moved_of_simple {c : Command} (h : c.keyword.isSimple = true) : c.moved place = c := by
  cases c <;> first | rfl | cases h

theorem relates_readSimple {c : Context} {keyword : Keyword} {rest : String}
    (hk : keyword.isSimple = true) : Relates (Mirror place keys names k j)
      (fun r r' => r' = r.map (Command.moved place)) (c.readCommand keyword rest : AssemblyM _)
      (c.readCommand keyword rest : AssemblyM _) := by
  refine relates_lift ?_
  cases hr : c.readCommand keyword rest with
  | error e => exact .error rfl
  | ok r =>
    obtain ⟨cmd, rfl, hcmd⟩ := Context.readCommand_keyword hk hr
    exact .ok (congrArg some (moved_of_simple (hcmd ▸ hk)).symm)

include hinj in
theorem relates_readKeyword (hkey : keys k) (hmain : names mainOwner) {keyword : Keyword}
    {rest : String} (hname : keyword = .sub → names rest) :
    Relates (Mirror place keys names k (place k)) (fun r r' => r' = r.map (Command.moved place))
      (readKeyword keyword rest) (readKeyword keyword rest) := by
  refine relates_get_bind fun a b h => ?_
  dsimp only
  rw [h.sees.readCondition, h.sees.readCommand]
  cases keyword <;> dsimp only
  case allocate => exact relates_some (relates_readAllocate rest)
  case if_ =>
    exact couples_lift.bind_relates fun c =>
      (couples_beginChain hinj hkey).bind_relates fun _ => relates_pure rfl
  case elseIf =>
    exact couples_lift.bind_relates fun c =>
      (relates_addBranch hinj .elseIf false).bind fun _ _ _ => relates_pure rfl
  case else_ =>
    exact couples_lift.bind_relates fun _ =>
      (relates_addBranch hinj .else_ true).bind fun _ _ _ => relates_pure rfl
  case endIf =>
    exact couples_lift.bind_relates fun _ =>
      (relates_endChain hinj).bind fun _ _ _ => relates_pure rfl
  case for_ => exact relates_some (relates_beginLoop hinj hkey rest)
  case next =>
    refine couples_lift.bind_relates fun _ => (relates_innermostLoop .next).bind ?_
    rintro id _ ⟨rfl, -⟩
    exact relates_pure rfl
  case skip =>
    refine couples_lift.bind_relates fun _ => (relates_innermostLoop .skip).bind ?_
    rintro id _ ⟨rfl, -⟩
    exact relates_pure rfl
  case skipIf =>
    refine (relates_innermostLoop .skipIf).bind ?_
    rintro id _ ⟨rfl, -⟩
    exact couples_lift.bind_relates fun _ => relates_pure rfl
  case break_ =>
    refine couples_lift.bind_relates fun _ => (relates_innermostLoop .break_).bind ?_
    rintro id _ ⟨rfl, -⟩
    exact relates_pure rfl
  case breakIf =>
    refine (relates_innermostLoop .breakIf).bind ?_
    rintro id _ ⟨rfl, -⟩
    exact couples_lift.bind_relates fun _ => relates_pure rfl
  case endFor =>
    exact couples_lift.bind_relates fun _ => relates_some (relates_endLoop hinj)
  case sub => exact relates_some (relates_beginSub (hname rfl))
  case endSub => exact couples_lift.bind_relates fun _ => relates_some (relates_endSub hmain)
  case gosub => exact relates_some (relates_readGosub rest)
  case endMain =>
    refine couples_lift.bind_relates fun _ => relates_get_bind fun a b h => ?_
    rw [h.current]
    cases a.current with
    | some name => exact relates_throw rfl
    | none => exact relates_pure rfl
  case startup =>
    refine couples_lift.bind_relates fun _ => Couples.bind_relates (couples_modify fun a b h => ?_)
      fun _ => relates_pure rfl
    exact { h with inStartup := rfl }
  case endStartup => exact relates_throw rfl
  -- every other keyword is simple
  all_goals exact relates_readSimple rfl

/-- Outside the startup block a line that does not begin it becomes a command. -/
theorem Reads.isSome {l : Line} {r : Option Command} (h : Reads a l r b) (hin : a.inStartup = false)
    (hstartup : l.keyword? ≠ some .startup) : r.isSome := by
  cases h with
  | inside h =>
    rw [hin] at h
    cases h
  | options => rfl
  | statement _ hs h =>
    cases h with
    | startup => exact absurd (Line.keyword?_of_statement? hs) hstartup
    | _ => rfl

include hinj in
/-- A line is read alike; it may be read at any place unless it becomes a command. -/
theorem Mirror.readLine (h : Mirror place keys names k j a b) (hmain : names mainOwner) {l : Line}
    {r : Option Command} {a' : Assembly} (hplace : r.isSome → place k = j ∧ keys k)
    (hname : ∀ rest, l.statement? = some (.sub, rest) → names rest)
    (hread : Gives (Assembly.readLine l.text) a r a') :
    ∃ b', Gives (Assembly.readLine l.text) b (r.map (Command.moved place)) b' ∧
      Mirror place keys names k j a' b' := by
  have tail (x y : Assembly → AssemblyM (Option Command))
      (hxy : Relates (Mirror place keys names k j) (fun r r' => r' = r.map (Command.moved place))
        (x a) (y b)) (hx : Gives (get >>= x) a r a') :
      ∃ b', Gives (get >>= y) b (r.map (Command.moved place)) b' ∧
        Mirror place keys names k j a' b' := by
    obtain ⟨_, b', hy, rfl, hafter⟩ := hxy.of_gives h hx
    exact ⟨b', hy, hafter⟩
  have hreads := reads_of_readLine hread
  revert hread
  unfold Assembly.readLine
  rcases hsplit : Keyword.split l.text.toList with ⟨word, rest⟩
  refine tail _ _ ?_
  rw [h.inStartup]
  refine relates_ite Iff.rfl (fun _ => ?_) fun hin => ?_
  · refine relates_ite Iff.rfl (fun _ => Couples.bind_relates (couples_modify fun a b h => ?_)
      fun _ => relates_pure rfl) fun _ => relates_pure rfl
    exact { h with inStartup := rfl }
  · refine relates_ite Iff.rfl (fun _ => relates_same_bind fun c hc => ?_) fun hopt => ?_
    · refine relates_pure (congrArg some (moved_of_simple ?_).symm)
      rw [Context.readOptions_keyword hc]
      rfl
    · have hstatement {keyword : Keyword}
          (hk : Keyword.ofWord? (String.ofList word) = some keyword) :
          l.statement? = some (keyword, String.ofList rest) :=
        Line.statement?_eq_some.mpr ⟨Bool.eq_false_iff.mpr hopt, by rw [hsplit, hk], by rw [hsplit]⟩
      cases hk : Keyword.ofWord? (String.ofList word) with
      | none => exact relates_throw rfl
      | some keyword =>
        by_cases hstartup : keyword = .startup
        · subst hstartup
          refine relates_get_bind fun a b h => couples_lift.bind_relates fun _ => ?_
          refine Couples.bind_relates (couples_modify fun a b h => ?_) fun _ => relates_pure rfl
          exact { h with inStartup := rfl }
        · have hkeyword := Line.keyword?_of_statement? (hstatement hk)
          obtain ⟨rfl, hkey⟩ := hplace (hreads.isSome (Bool.eq_false_iff.mpr hin)
            (hkeyword ▸ fun heq => hstartup (Option.some.inj heq)))
          exact relates_readKeyword hinj hkey hmain fun hsub => hname _ (hsub ▸ hstatement hk)

/-! ### Taking in -/

include hinj in
theorem Mirror.pushed (h : Mirror place keys names k (place k) a b) {l l' : Line}
    (hl : 0 < l.number) (hl' : 0 < l'.number) (c : Command) :
    Mirror place keys names (k + 1) (place k + 1) (a.pushed l c) (b.pushed l' (c.moved place)) := by
  refine { h with left := ?_, right := ?_, slots := fun {i} hi => { h.slots hi with entry := ?_ } }
  · rw [CommandScript.Assembly.pushed_index, ← index_eq_length, h.left]
  · rw [CommandScript.Assembly.pushed_index, ← index_eq_length, h.right]
  · show Option.Rel _ ((a.commands.push _)[i]?) ((b.commands.push _)[place i]?)
    have ha : a.commands.size = k := h.left
    have hb : b.commands.size = place k := h.right
    rw [Array.getElem?_push, Array.getElem?_push, ha, hb]
    by_cases hk : i = k
    · subst hk
      rw [if_pos rfl, if_pos rfl]
      exact .some ⟨h.right.trans (congrArg place h.left.symm), hl, hl', rfl⟩
    · rw [if_neg hk, if_neg fun heq => hk (hinj heq)]
      exact (h.slots hi).entry

theorem Walks.index_le {ls : List Line} (h : Walks a ls b) : a.index ≤ b.index := by
  obtain ⟨es, hes⟩ := h.commands
  rw [index_eq_length, index_eq_length, hes, List.length_append]
  exact Nat.le_add_right _ _

section Walk

variable (hmain : names mainOwner)

include hinj hmain

/-- Taking in a line keeps assemblies mirroring each other. -/
theorem Mirror.line (h : Mirror place keys names k j a b) (hc : a.findings.collecting = false)
    (hc' : b.findings.collecting = false) {l l' : Line} (htext : l'.text = l.text)
    (hl : 0 < l.number) (hl' : 0 < l'.number) {a' : Assembly}
    (hplace : k < a'.index → place k = j ∧ keys k)
    (hname : ∀ rest, l.statement? = some (.sub, rest) → names rest)
    (hline : Gives (line l) a () a') :
    ∃ b', Gives (Assembly.line l') b () b' ∧
      Mirror place keys names a'.index (j + (a'.index - k)) a' b' := by
  obtain ⟨r, a₁, hread, rfl⟩ := (gives_line hc).mp hline
  have hindex : a₁.index = k := by
    rw [← h.left, index, (reads_of_readLine hread).commands_eq, index]
  have hpushed (c : Command) : (a₁.pushed l c).index = k + 1 := by
    rw [CommandScript.Assembly.pushed_index, ← index_eq_length, hindex]
  have hput (hr : r.isSome) : place k = j ∧ keys k := by
    obtain ⟨c, rfl⟩ := Option.isSome_iff_exists.mp hr
    exact hplace (Nat.lt_of_lt_of_eq (Nat.lt_succ_self k) (hpushed c).symm)
  obtain ⟨b₁, hread', h₁⟩ := h.readLine hinj hmain hput hname hread
  refine ⟨b₁.pushed? l' (r.map (Command.moved place)),
    (gives_line hc').mpr ⟨_, b₁, htext ▸ hread', rfl⟩, ?_⟩
  cases r with
  | none =>
    show Mirror place keys names a₁.index (j + (a₁.index - k)) a₁ b₁
    rwa [hindex, Nat.sub_self]
  | some c =>
    obtain ⟨rfl, -⟩ := hput rfl
    show Mirror place keys names (a₁.pushed l c).index (place k + ((a₁.pushed l c).index - k))
      (a₁.pushed l c) (b₁.pushed l' (c.moved place))
    rw [hpushed, Nat.add_sub_cancel_left]
    exact h₁.pushed hinj hl hl' c

/-- Passing over the same lines keeps assemblies mirroring each other, if every command that they
become is at its place. -/
theorem Mirror.passes {ls ls' : List Line} {a' : Assembly} (h : Mirror place keys names k j a b)
    (hc : a.findings.collecting = false) (hc' : b.findings.collecting = false)
    (htexts : ls'.map (·.text) = ls.map (·.text)) (hls : ∀ l ∈ ls, 0 < l.number)
    (hls' : ∀ l ∈ ls', 0 < l.number)
    (hplace : ∀ i, k ≤ i → i < a'.index → place i = j + (i - k) ∧ keys i)
    (hname : ∀ l ∈ ls, ∀ rest, l.statement? = some (.sub, rest) → names rest)
    (hpass : PassesOver Assembly.line a ls a') :
    ∃ b', PassesOver Assembly.line b ls' b' ∧
      Mirror place keys names a'.index (j + (a'.index - k)) a' b' := by
  induction hpass generalizing k j b ls' with
  | nil a =>
    obtain rfl := List.map_eq_nil_iff.mp htexts
    refine ⟨b, .nil b, ?_⟩
    rwa [h.left, Nat.sub_self]
  | @cons a a₁ a' l ls hline hrest ih =>
    obtain ⟨l', ls', rfl, htext, htexts⟩ := List.map_eq_cons_iff.mp htexts
    have htakes := takes_of_line hc hline
    have hle : k ≤ a₁.index := h.left ▸ htakes.index_le
    have hc₁ : a₁.findings.collecting = false := by rw [htakes.findings_eq, hc]
    have hle' : a₁.index ≤ a'.index := (walks_of_passesOver hc₁ hrest).index_le
    obtain ⟨b₁, hline', h₁⟩ := h.line hinj hmain hc hc' htext (hls l List.mem_cons_self)
      (hls' l' List.mem_cons_self)
      (fun hlt => by simpa using hplace k (Nat.le_refl k) (Nat.lt_of_lt_of_le hlt hle'))
      (hname l List.mem_cons_self) hline
    have hc₁' : b₁.findings.collecting = false := by
      rw [(takes_of_line hc' hline').findings_eq, hc']
    have hplace₁ (i : Nat) (hi : a₁.index ≤ i) (hlt : i < a'.index) :
        place i = j + (a₁.index - k) + (i - a₁.index) ∧ keys i := by
      obtain ⟨hput, hkey⟩ := hplace i (Nat.le_trans hle hi) hlt
      exact ⟨by omega, hkey⟩
    obtain ⟨b', hpass', h'⟩ := ih h₁ hc₁ hc₁' htexts (fun l hl => hls l (List.mem_cons_of_mem _ hl))
      (fun l hl => hls' l (List.mem_cons_of_mem _ hl)) hplace₁
      fun l hl => hname l (List.mem_cons_of_mem _ hl)
    refine ⟨b', .cons hline' hpass', ?_⟩
    have heq : j + (a'.index - k) = j + (a₁.index - k) + (a'.index - a₁.index) := by omega
    rwa [heq]

end Walk

end Reading

end Mirror

end Assembly

end CommandScript
