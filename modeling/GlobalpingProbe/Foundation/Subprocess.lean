import Mathlib.Data.List.Nodup
import Mathlib.Order.Nat

/-! # Futures over child processes

A future is a state machine: a state lists what it waits for, with the states the answers
lead to, and one that waits for nothing has ended. A child runs until it ends by itself or is
killed; giving up its output, or dropping the future, leaves it running.
-/
namespace Foundation
variable {β ε σ τ : Type}

/-- The errors of `kill` and of the writes that feed a child are ignored; its output is
collected under a time limit. -/
inductive Await (β ε σ : Type) where
  | spawn (next : Except ε ℕ → σ)
  | feed (child : ℕ) (next : σ)
  | nextLine (child : ℕ) (next : Except ε (Option β) → σ)
  | kill (child : ℕ) (next : σ)
  | wait (child : ℕ) (next : σ)
  | output (child : ℕ) (next : Except ε (β × β) → σ) (elapsed : σ)

inductive Answer (β ε : Type) where
  | spawned
  | spawnFailed (e : ε)
  | fed
  | line (l : β)
  | endOfFile
  | readFailed (e : ε)
  | killed
  | killFailed
  | waited
  | output (stdout stderr : β)
  | outputFailed (e : ε)
  | elapsed
  deriving DecidableEq, Repr

namespace Await

def map (f : σ → τ) : Await β ε σ → Await β ε τ
  | spawn next => .spawn (f ∘ next)
  | feed c next => .feed c (f next)
  | nextLine c next => .nextLine c (f ∘ next)
  | kill c next => .kill c (f next)
  | wait c next => .wait c (f next)
  | output c next elapsed => .output c (f ∘ next) (f elapsed)

def child : Await β ε σ → Option ℕ
  | spawn _ => none
  | feed c _ | nextLine c _ | kill c _ | wait c _ | output c _ _ => some c

/-- The state and the children after an answer. A child that is waited for, or whose output
has come to its end, is dead by then. -/
def answer (children : List Bool) : Await β ε σ → Answer β ε → Option (σ × List Bool)
  | spawn next, .spawned => some (next (.ok children.length), children ++ [true])
  | spawn next, .spawnFailed e => some (next (.error e), children)
  | feed _ next, .fed => some (next, children)
  | nextLine _ next, .line l => some (next (.ok (some l)), children)
  | nextLine _ next, .endOfFile => some (next (.ok none), children)
  | nextLine _ next, .readFailed e => some (next (.error e), children)
  | kill c next, .killed => some (next, children.set c false)
  | kill _ next, .killFailed => some (next, children)
  | wait c next, .waited => if children[c]? = some true then none else some (next, children)
  | output c next _, .output stdout stderr =>
    if children[c]? = some true then none else some (next (.ok (stdout, stderr)), children)
  | output _ next _, .outputFailed e => some (next (.error e), children)
  | output _ _ elapsed, .elapsed => some (elapsed, children)
  | _, _ => none

/-- The child that an answer gives up: its output cannot be read, or not in time. -/
def givesUp : Await β ε σ → Answer β ε → Option ℕ
  | nextLine c _, .readFailed _ | output c _ _, .outputFailed _ | output c _ _, .elapsed => some c
  | _, _ => none

/-- The child to wait for after an answer: a new one, or one not known to be dead. -/
def keeps (n : ℕ) : Await β ε σ → Answer β ε → Option ℕ
  | spawn _, .spawned => some n
  | feed c _, .fed | nextLine c _, .line _ | nextLine c _, .endOfFile => some c
  | kill c _, .killed | kill c _, .killFailed => some c
  | _, _ => none

variable {w : Await β ε σ} {a : Answer β ε} {s' : σ} {children children' : List Bool} {c n : ℕ}

@[simp] theorem child_map (f : σ → τ) (w : Await β ε σ) : (w.map f).child = w.child := by
  cases w <;> rfl

@[simp] theorem givesUp_map (f : σ → τ) (w : Await β ε σ) (a : Answer β ε) :
    (w.map f).givesUp a = w.givesUp a := by
  cases w <;> cases a <;> rfl

@[simp] theorem keeps_map (f : σ → τ) (w : Await β ε σ) (a : Answer β ε) :
    (w.map f).keeps n a = w.keeps n a := by
  cases w <;> cases a <;> rfl

theorem answer_map (f : σ → τ) (w : Await β ε σ) (a : Answer β ε) :
    (w.map f).answer children a = (w.answer children a).map (fun r => (f r.1, r.2)) := by
  cases w <;> cases a <;> simp only [map, answer, Function.comp_apply, Option.map_some,
    Option.map_none, apply_ite (Option.map _)]

end Await

/-- What an answer can do to the children: `child` is the one waited for, `keeps` the one to
wait for after it and `givesUp` the one it gives up. -/
inductive ChildMove (children : List Bool) :
    (child keeps givesUp : Option ℕ) → List Bool → Prop where
  | spawned : ChildMove children none (some children.length) none (children ++ [true])
  | notSpawned : ChildMove children none none none children
  | kept (c : ℕ) : ChildMove children (some c) (some c) none children
  | killed (c : ℕ) : ChildMove children (some c) (some c) none (children.set c false)
  | dead (c : ℕ) (h : children[c]? ≠ some true) : ChildMove children (some c) none none children
  | givenUp (c : ℕ) : ChildMove children (some c) none (some c) children

theorem Await.answer_move {w : Await β ε σ} {a : Answer β ε} {s' : σ}
    {children children' : List Bool} (h : w.answer children a = some (s', children')) :
    ChildMove children w.child (w.keeps children.length a) (w.givesUp a) children' := by
  cases w <;> cases a <;> simp only [answer, reduceCtorEq, Option.some.injEq, Prod.mk.injEq,
    Option.ite_none_left_eq_some] at h
  case spawn.spawned => exact h.2 ▸ .spawned
  case spawn.spawnFailed => exact h.2 ▸ .notSpawned
  case feed.fed | nextLine.line | nextLine.endOfFile | kill.killFailed => exact h.2 ▸ .kept _
  case kill.killed => exact h.2 ▸ .killed _
  case wait.waited | output.output => exact h.2.2 ▸ .dead _ h.1
  case nextLine.readFailed | output.outputFailed | output.elapsed => exact h.2 ▸ .givenUp _

structure Parent (σ : Type) where
  future : σ
  /-- Whether each child spawned so far is running. -/
  children : List Bool

/-- The children that a state waits for. -/
def waitedFor (awaits : σ → List (Await β ε σ)) (s : σ) : List ℕ :=
  (awaits s).filterMap Await.child

namespace Parent

def start (s : σ) : Parent σ := ⟨s, []⟩

/-- One of the awaits gets its answer. -/
def poll (awaits : σ → List (Await β ε σ)) (t : Parent σ) (i : ℕ) (a : Answer β ε) :
    Option (Parent σ) :=
  (awaits t.future)[i]?.bind (fun w => (w.answer t.children a).map (fun r => ⟨r.1, r.2⟩))

/-- The child that an answer to one of the awaits gives up. -/
def givesUp (awaits : σ → List (Await β ε σ)) (t : Parent σ) (i : ℕ) (a : Answer β ε) : Option ℕ :=
  (awaits t.future)[i]?.bind (fun w => w.givesUp a)

/-- A child ends by itself. -/
def exits (t : Parent σ) (c : ℕ) : Option (Parent σ) :=
  if t.children[c]? = some true then some { t with children := t.children.set c false } else none

def Running (t : Parent σ) (c : ℕ) : Prop := t.children[c]? = some true

instance (t : Parent σ) (c : ℕ) : Decidable (t.Running c) :=
  inferInstanceAs (Decidable (t.children[c]? = some true))

end Parent

/-- Where an answer leads, the same children are waited for, the one of the await apart. -/
def TidyAt (awaits : σ → List (Await β ε σ)) (s : σ) : Prop :=
  ∀ w ∈ awaits s, ∀ children a s' children', w.answer children a = some (s', children') →
    (waitedFor awaits s' ++ w.child.toList).Perm
      (waitedFor awaits s ++ (w.keeps children.length a).toList)

/-- A machine inside another is as tidy there. -/
theorem TidyAt.map {inner : σ → List (Await β ε σ)} (outer : τ → List (Await β ε τ)) (f : σ → τ)
    (hf : ∀ s, outer (f s) = (inner s).map (Await.map f)) {s : σ} (h : TidyAt inner s) :
    TidyAt outer (f s) := by
  have hwaited : ∀ s, waitedFor outer (f s) = waitedFor inner s := by
    intro s
    simp [waitedFor, hf, List.filterMap_map]
  intro w hw children a t children' ha
  rw [hf] at hw
  obtain ⟨v, hv, rfl⟩ := List.mem_map.mp hw
  rw [Await.answer_map, Option.map_eq_some_iff] at ha
  obtain ⟨⟨s', children'⟩, ha, he⟩ := ha
  cases he
  simpa [hwaited] using h v hv children a s' children' ha

/-! ## Machines that are tidy -/

section Tidy
variable {awaits : σ → List (Await β ε σ)} {s : σ} {w : Await β ε σ}

/-- Each answer leads to a state that waits for what the answer keeps and nothing else. -/
def Await.Leads (waits : σ → List ℕ) : Await β ε σ → Prop
  | spawn next => (∀ n, waits (next (.ok n)) = [n]) ∧ ∀ e, waits (next (.error e)) = []
  | feed c next => waits next = [c]
  | nextLine c next => (∀ l, waits (next (.ok l)) = [c]) ∧ ∀ e, waits (next (.error e)) = []
  | kill c next => waits next = [c]
  | wait _ next => waits next = []
  | output _ next elapsed => (∀ r, waits (next r) = []) ∧ waits elapsed = []

theorem Await.Leads.answer {waits : σ → List ℕ} (h : w.Leads waits) {children children' : List Bool}
    {a : Answer β ε} {s' : σ} (ha : w.answer children a = some (s', children')) :
    waits s' = (w.keeps children.length a).toList := by
  cases w <;> cases a <;> simp only [Await.answer, reduceCtorEq, Option.some.injEq,
    Prod.mk.injEq, Option.ite_none_left_eq_some] at ha
  case spawn.spawned | nextLine.line | nextLine.endOfFile => exact ha.1 ▸ h.1 _
  case spawn.spawnFailed | nextLine.readFailed => exact ha.1 ▸ h.2 _
  case feed.fed | kill.killed | kill.killFailed => exact ha.1 ▸ h
  case wait.waited => exact ha.2.1 ▸ h
  case output.output => exact ha.2.1 ▸ h.1 _
  case output.outputFailed => exact ha.1 ▸ h.1 _
  case output.elapsed => exact ha.1 ▸ h.2

theorem tidyAt_nil (hs : awaits s = []) : TidyAt awaits s := by
  intro w hw
  rw [hs] at hw
  cases hw

theorem tidyAt_singleton (hs : awaits s = [w]) (hw : w.Leads (waitedFor awaits)) :
    TidyAt awaits s := by
  intro v hv children a s' children' ha
  rw [hs, List.mem_singleton] at hv
  rw [hv] at ha ⊢
  have hwaited : waitedFor awaits s = w.child.toList := by
    cases hc : w.child <;> simp [waitedFor, hs, hc]
  rw [hw.answer ha, hwaited]
  exact List.perm_append_comm

variable {π : Type}

/-- The awaits of several parts at once; an answer to one of them changes that part. -/
def parallel (await : π → Option (Await β ε π)) (wrap : List π → σ) (parts : List π) :
    List (Await β ε σ) :=
  parts.zipIdx.filterMap (fun p =>
    (await p.1).map (Await.map (fun next => wrap (parts.set p.2 next))))

theorem filterMap_set_perm {γ : Type*} (g : π → Option γ) {l : List π} {j : ℕ} {p : π}
    (h : l[j]? = some p) (q : π) :
    ((l.set j q).filterMap g ++ (g p).toList).Perm (l.filterMap g ++ (g q).toList) := by
  have hcons : ∀ (x : π) (l : List π), (x :: l).filterMap g = (g x).toList ++ l.filterMap g := by
    intro x l
    cases hx : g x <;> simp [hx]
  induction l generalizing j with
  | nil => cases h
  | cons x l ih =>
    cases j with
    | zero =>
      obtain rfl : x = p := by simpa using h
      rw [List.set_cons_zero, hcons, hcons, List.append_assoc _ _ (g q).toList]
      exact List.perm_append_comm.trans (List.perm_append_comm.append_left _)
    | succ j =>
      have hrest := ih (j := j) (by simpa using h)
      rw [List.set_cons_succ, hcons, hcons, List.append_assoc, List.append_assoc]
      exact hrest.append_left _

theorem waitedFor_parallel {await : π → Option (Await β ε π)} {wrap : List π → σ}
    (hw : ∀ parts, awaits (wrap parts) = parallel await wrap parts) (parts : List π) :
    waitedFor awaits (wrap parts) = parts.filterMap (fun p => (await p).bind Await.child) := by
  have hfst : parts.filterMap (fun p => (await p).bind Await.child) =
      parts.zipIdx.filterMap (fun p => (await p.1).bind Await.child) := by
    conv_lhs => rw [← List.zipIdx_map_fst 0 parts, List.filterMap_map]
    rfl
  rw [hfst, waitedFor, hw, parallel, List.filterMap_filterMap]
  apply List.filterMap_congr
  intro p _
  cases await p.1 <;> simp

theorem tidyAt_parallel {await : π → Option (Await β ε π)} {wrap : List π → σ}
    (hw : ∀ parts, awaits (wrap parts) = parallel await wrap parts)
    (hparts : ∀ p w, await p = some w →
      w.Leads (fun q => ((await q).bind Await.child).toList)) (parts : List π) :
    TidyAt awaits (wrap parts) := by
  intro w hmem children a s' children' ha
  rw [hw] at hmem
  obtain ⟨⟨p, j⟩, hp, hmap⟩ := List.mem_filterMap.mp hmem
  obtain ⟨v, hv, rfl⟩ := Option.map_eq_some_iff.mp hmap
  rw [Await.answer_map, Option.map_eq_some_iff] at ha
  obtain ⟨⟨q, children''⟩, ha, he⟩ := ha
  cases he
  have hkeeps := (hparts p v hv).answer ha
  rw [waitedFor_parallel hw, waitedFor_parallel hw, Await.child_map, Await.keeps_map, ← hkeeps]
  have hchild : v.child = (await p).bind Await.child := by simp [hv]
  rw [hchild]
  exact filterMap_set_perm _ (List.mem_zipIdx_iff_getElem?.mp hp) q

end Tidy

section Runs
variable {awaits : σ → List (Await β ε σ)} {t t' : Parent σ} {i c d : ℕ} {a : Answer β ε}

namespace Parent

theorem poll_eq_some : t.poll awaits i a = some t' ↔ ∃ w, (awaits t.future)[i]? = some w ∧
    w.answer t.children a = some (t'.future, t'.children) := by
  simp only [poll, Option.bind_eq_some_iff, Option.map_eq_some_iff]
  constructor
  · rintro ⟨w, hw, ⟨s', children'⟩, ha, rfl⟩
    exact ⟨w, hw, ha⟩
  · rintro ⟨w, hw, ha⟩
    exact ⟨w, hw, _, ha, rfl⟩

theorem exits_eq_some : t.exits d = some t' ↔
    t.Running d ∧ t' = { t with children := t.children.set d false } := by
  simp [exits, Running, eq_comm]

theorem running_set {d : ℕ} : (t.children.set d false)[c]? = some true ↔ c ≠ d ∧ t.Running c := by
  rw [List.getElem?_set]
  split_ifs with he hd
  · simp [he]
  · simp [he]
  · exact ⟨fun h => ⟨Ne.symm he, h⟩, fun h => h.2⟩

/-- Every running child is one that the future waits for. -/
def InSight (awaits : σ → List (Await β ε σ)) (t : Parent σ) : Prop :=
  ∀ c, t.Running c → c ∈ waitedFor awaits t.future

/-- No child is waited for twice or before it is there. -/
structure Proper (awaits : σ → List (Await β ε σ)) (t : Parent σ) : Prop where
  nodup : (waitedFor awaits t.future).Nodup
  spawned : ∀ c ∈ waitedFor awaits t.future, c < t.children.length

/-- The child is running and the future does not wait for it. -/
structure Forgotten (awaits : σ → List (Await β ε σ)) (t : Parent σ) (c : ℕ) : Prop where
  running : t.Running c
  notWaited : c ∉ waitedFor awaits t.future

theorem Running.lt_length (h : t.Running c) : c < t.children.length :=
  (List.getElem?_eq_some_iff.mp h).1

theorem poll_move (htidy : ∀ s, TidyAt awaits s) (h : t.poll awaits i a = some t') :
    ∃ child keeps, ChildMove t.children child keeps (t.givesUp awaits i a) t'.children ∧
      (waitedFor awaits t'.future ++ child.toList).Perm
        (waitedFor awaits t.future ++ keeps.toList) ∧
      ∀ c, child = some c → c ∈ waitedFor awaits t.future := by
  obtain ⟨w, hw, ha⟩ := poll_eq_some.mp h
  have hmem : w ∈ awaits t.future := List.mem_of_getElem? hw
  refine ⟨w.child, _, ?_, htidy _ w hmem _ _ _ _ ha, fun c hc => ?_⟩
  · simpa [givesUp, hw] using Await.answer_move ha
  · exact List.mem_filterMap.mpr ⟨w, hmem, hc⟩

theorem running_concat (h : (t.children ++ [true])[c]? = some true) :
    t.Running c ∨ c = t.children.length := by
  have hlt := (List.getElem?_eq_some_iff.mp h).1
  rw [List.length_append, List.length_singleton] at hlt
  rcases Nat.lt_succ_iff_lt_or_eq.mp hlt with hlt | heq
  · rw [List.getElem?_append_left hlt] at h
    exact .inl h
  · exact .inr heq

/-- Nothing gets out of sight as long as no running child is given up. -/
theorem InSight.poll (htidy : ∀ s, TidyAt awaits s) (hs : t.InSight awaits)
    (hsafe : ∀ c, t.givesUp awaits i a = some c → ¬ t.Running c)
    (h : t.poll awaits i a = some t') : t'.InSight awaits := by
  intro c hc
  obtain ⟨child, keeps, hmove, hperm, -⟩ := poll_move htidy h
  have hmem := hperm.mem_iff (a := c)
  unfold Running at hc
  generalize hg : t.givesUp awaits i a = givesUp at hmove hsafe
  generalize t'.children = children' at hmove hc
  cases hmove with
  | spawned =>
    rcases running_concat hc with hr | rfl
    · simpa [hs c hr] using hmem
    · simpa using hmem
  | notSpawned => simpa [hs c hc] using hmem
  | kept d => exact ((List.perm_append_right_iff _).mp hperm).mem_iff.mpr (hs c hc)
  | killed d =>
    exact ((List.perm_append_right_iff _).mp hperm).mem_iff.mpr (hs c (running_set.mp hc).2)
  | dead d hd =>
    have hne : c ≠ d := fun he => hd (he ▸ hc)
    simpa [hs c hc, hne] using hmem
  | givenUp d =>
    have hne : c ≠ d := fun he => hsafe d rfl (he ▸ hc)
    simpa [hs c hc, hne] using hmem

theorem InSight.exits (hs : t.InSight awaits) (h : t.exits d = some t') : t'.InSight awaits := by
  obtain ⟨-, rfl⟩ := exits_eq_some.mp h
  exact fun c hc => hs c (running_set.mp hc).2

/-- A future that has ended with all children in sight leaves none running. -/
theorem InSight.ended (hs : t.InSight awaits) (hend : awaits t.future = []) :
    ∀ c, ¬ t.Running c := by
  intro c hc
  have hmem := hs c hc
  simp [waitedFor, hend] at hmem

theorem Proper.poll (htidy : ∀ s, TidyAt awaits s) (hp : t.Proper awaits)
    (h : t.poll awaits i a = some t') : t'.Proper awaits := by
  obtain ⟨child, keeps, hmove, hperm, -⟩ := poll_move htidy h
  generalize t.givesUp awaits i a = givesUp at hmove
  obtain ⟨s', children'⟩ := t'
  dsimp only at hmove hperm
  cases hmove with
  | spawned =>
    rw [Option.toList_none, Option.toList_some, List.append_nil] at hperm
    refine ⟨hperm.nodup_iff.mpr (List.nodup_append.mpr ⟨hp.nodup, List.nodup_singleton _, ?_⟩),
      fun c hc => ?_⟩
    · intro c hc n hn
      rw [List.mem_singleton.mp hn]
      exact (hp.spawned c hc).ne
    · dsimp only
      rw [List.length_append, List.length_singleton]
      rcases List.mem_append.mp (hperm.mem_iff.mp hc) with hc | hc
      · exact (hp.spawned c hc).trans (Nat.lt_succ_self _)
      · rw [List.mem_singleton.mp hc]
        exact Nat.lt_succ_self _
  | notSpawned =>
    simp only [Option.toList_none, List.append_nil] at hperm
    exact ⟨hperm.nodup_iff.mpr hp.nodup, fun c hc => hp.spawned c (hperm.mem_iff.mp hc)⟩
  | kept d =>
    have hsame := (List.perm_append_right_iff _).mp hperm
    exact ⟨hsame.nodup_iff.mpr hp.nodup, fun c hc => hp.spawned c (hsame.mem_iff.mp hc)⟩
  | killed d =>
    have hsame := (List.perm_append_right_iff _).mp hperm
    refine ⟨hsame.nodup_iff.mpr hp.nodup, fun c hc => ?_⟩
    simpa using hp.spawned c (hsame.mem_iff.mp hc)
  | dead d _ | givenUp d =>
    rw [Option.toList_none, List.append_nil] at hperm
    refine ⟨((hperm.nodup_iff.mpr hp.nodup).sublist (List.sublist_append_left _ _)), fun c hc => ?_⟩
    exact hp.spawned c (hperm.mem_iff.mp (List.mem_append_left _ hc))

theorem Proper.exits (hp : t.Proper awaits) (h : t.exits d = some t') : t'.Proper awaits := by
  obtain ⟨-, rfl⟩ := exits_eq_some.mp h
  exact ⟨hp.nodup, fun c hc => by simpa using hp.spawned c hc⟩

/-- A running child that is given up is forgotten. -/
theorem Proper.forgets (htidy : ∀ s, TidyAt awaits s) (hp : t.Proper awaits)
    (hg : t.givesUp awaits i a = some c) (hc : t.Running c) (h : t.poll awaits i a = some t') :
    t'.Forgotten awaits c := by
  obtain ⟨child, keeps, hmove, hperm, -⟩ := poll_move htidy h
  rw [hg] at hmove
  obtain ⟨s', children'⟩ := t'
  dsimp only at hmove hperm
  cases hmove with
  | givenUp c =>
    rw [Option.toList_none, List.append_nil, Option.toList_some] at hperm
    have hnodup := hperm.nodup_iff.mpr hp.nodup
    exact ⟨hc, fun hm => (List.nodup_append.mp hnodup).2.2 c hm c (by simp) rfl⟩

/-- What is forgotten stays so: no await gets to it any more. -/
theorem Forgotten.poll (htidy : ∀ s, TidyAt awaits s) (hf : t.Forgotten awaits c)
    (h : t.poll awaits i a = some t') : t'.Forgotten awaits c := by
  obtain ⟨child, keeps, hmove, hperm, hchild⟩ := poll_move htidy h
  have hlt := hf.running.lt_length
  have hmem := hperm.mem_iff (a := c)
  generalize t.givesUp awaits i a = givesUp at hmove
  obtain ⟨s', children'⟩ := t'
  dsimp only at hmove hmem
  have hne : child ≠ some c := fun he => hf.notWaited (hchild c he)
  cases hmove with
  | spawned =>
    refine ⟨?_, fun hm => ?_⟩
    · unfold Running
      rw [List.getElem?_append_left hlt]
      exact hf.running
    · have := hmem.mp (List.mem_append_left _ hm)
      simp [hf.notWaited] at this
      omega
  | notSpawned => exact ⟨hf.running, by simpa [hf.notWaited] using hmem⟩
  | kept d =>
    have hcd : c ≠ d := fun he => hne (he ▸ rfl)
    exact ⟨hf.running, by simpa [hf.notWaited, hcd] using hmem⟩
  | killed d =>
    have hcd : c ≠ d := fun he => hne (he ▸ rfl)
    exact ⟨running_set.mpr ⟨hcd, hf.running⟩, by simpa [hf.notWaited, hcd] using hmem⟩
  | dead d _ | givenUp d =>
    have hcd : c ≠ d := fun he => hne (he ▸ rfl)
    exact ⟨hf.running, by simpa [hf.notWaited, hcd] using hmem⟩

theorem Forgotten.exits (hf : t.Forgotten awaits c) (hne : c ≠ d) (h : t.exits d = some t') :
    t'.Forgotten awaits c := by
  obtain ⟨-, rfl⟩ := exits_eq_some.mp h
  exact ⟨running_set.mpr ⟨hne, hf.running⟩, hf.notWaited⟩

end Parent
end Runs
end Foundation
