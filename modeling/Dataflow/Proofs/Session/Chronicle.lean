import Dataflow.Proofs.Session

/-!
# The order of connections

A plan lists the neighbours of every operator in an order, on either side. In a session that only adds
operators, connects them and takes edges out, all these orders come from one: the order in which the
edges that there are have been connected. A `Chronicle` keeps that one list. Connecting appends to it,
taking an edge out deletes from it, and the lists of a plan are what it says of each operator
(`Tells`).

The list is not the only account of that order. An edge is there *since* a moment at which it was
connected and after which it was not taken out (`IsSince`), and the chronicle lists the edges by these
moments (`Dated`). There is no bound on the length of a session: when the counter of the plan starts over,
so does that of the chronicle, and an operator that is replaced keeps its edges.
-/

namespace Dataflow

namespace Plan

variable {α : Type} {p q : Plan α} {s t v : OpId} {e e₀ : OpId × OpId} {i : Nat}

/-! ## Sessions without slots -/

/-- A call of the graph interface that names no slots. -/
inductive Move (α : Type) where
  | add (op : α)
  | connect (source target : OpId)
  | disconnect (source target : OpId)

/-- The move as a call. -/
def Move.toCall : Move α → Call α
  | add op => .add op
  | connect s t => .connect s t
  | disconnect s t => .disconnect s t

/-- The plan after a move. -/
def Move.perform (m : Move α) : Plan α → Plan α :=
  m.toCall.perform

/-! ## Chronicles -/

/-- The operators and the edges of a plan, without any of its lists. -/
structure Chronicle where
  /-- The identifiers that were given out, one for each operator that was added. -/
  known : List OpId
  /-- The edges there are. The one that was connected last is at the end. -/
  live : List (OpId × OpId)

namespace Chronicle

variable {h : Chronicle}

/-- Nothing has been added. -/
def empty : Chronicle :=
  ⟨[], []⟩

/-- The identifier of the operator that is added next: identifiers are counted from 1. -/
def fresh (h : Chronicle) : OpId :=
  ⟨UInt64.ofNat (h.known.length + 1)⟩

/-- Two different operators that have been added, without an edge from one to the other. -/
def Allows (h : Chronicle) (s t : OpId) : Prop :=
  s ∈ h.known ∧ t ∈ h.known ∧ s ≠ t ∧ (s, t) ∉ h.live

instance (h : Chronicle) (s t : OpId) : Decidable (h.Allows s t) :=
  inferInstanceAs (Decidable (_ ∧ _))

/-- The chronicle after a move. -/
def step (h : Chronicle) : Move α → Chronicle
  | .add _ => { h with known := h.known ++ [h.fresh] }
  | .connect s t => if h.Allows s t then { h with live := h.live ++ [(s, t)] } else h
  | .disconnect s t => { h with live := h.live.erase (s, t) }

/-- The chronicle of a session. -/
def ofMoves (moves : List (Move α)) : Chronicle :=
  moves.foldl step empty

theorem ofMoves_append_singleton (moves : List (Move α)) (m : Move α) :
    ofMoves (moves ++ [m]) = (ofMoves moves).step m := by
  rw [ofMoves, List.foldl_append, List.foldl_cons, List.foldl_nil, ofMoves]

/-- The edges whose end `f` is a given operator, by their ends `g`. -/
def ends (f g : OpId × OpId → OpId) (v : OpId) (l : List (OpId × OpId)) : List OpId :=
  (l.filter (f · = v)).map g

/-- The sources of the edges into an operator. -/
def sourcesOf (h : Chronicle) (v : OpId) : List OpId :=
  ends Prod.snd Prod.fst v h.live

/-- The targets of the edges out of an operator. -/
def targetsOf (h : Chronicle) (v : OpId) : List OpId :=
  ends Prod.fst Prod.snd v h.live

theorem mem_targetsOf_iff : t ∈ h.targetsOf s ↔ (s, t) ∈ h.live := by
  simp [targetsOf, ends]

theorem mem_sourcesOf_iff : s ∈ h.sourcesOf t ↔ (s, t) ∈ h.live := by
  simp [sourcesOf, ends]

/-! ## What an edge adds to the lists and takes from them -/

variable {f g : OpId × OpId → OpId} {l : List (OpId × OpId)}

theorem ends_cons (x : OpId × OpId) (l : List (OpId × OpId)) :
    ends f g v (x :: l) = if v = f x then g x :: ends f g v l else ends f g v l := by
  by_cases hv : v = f x
  · simp [ends, hv]
  · simp [ends, hv, Ne.symm hv]

theorem ends_append_singleton (l : List (OpId × OpId)) (e : OpId × OpId) :
    ends f g v (l ++ [e]) = if v = f e then ends f g v l ++ [g e] else ends f g v l := by
  have happend : ends f g v (l ++ [e]) = ends f g v l ++ ends f g v [e] := by simp [ends]
  rw [happend, ends_cons]
  by_cases hv : v = f e
  · rw [if_pos hv, if_pos hv]
    rfl
  · rw [if_neg hv, if_neg hv]
    exact List.append_nil _

/-- An edge is known by its two ends. -/
theorem ends_erase (hfg : ∀ x, f x = f e → g x = g e → x = e) (l : List (OpId × OpId)) :
    ends f g v (l.erase e) = if v = f e then (ends f g v l).erase (g e) else ends f g v l := by
  induction l with
  | nil => by_cases hv : v = f e <;> simp [ends]
  | cons x l ih =>
    by_cases hx : x = e
    · rw [hx, List.erase_cons_head, ends_cons]
      by_cases hv : v = f e
      · rw [if_pos hv, if_pos hv, List.erase_cons_head]
      · rw [if_neg hv, if_neg hv]
    · rw [List.erase_cons_tail (by simpa using hx), ends_cons, ends_cons, ih]
      by_cases hv : v = f e
      · by_cases hxv : v = f x
        · have hg : g x ≠ g e := fun hg ↦ hx (hfg x (hxv.symm.trans hv) hg)
          rw [if_pos hv, if_pos hv, if_pos hxv, if_pos hxv, List.erase_cons_tail (by simpa using hg)]
        · rw [if_pos hv, if_pos hv, if_neg hxv, if_neg hxv]
      · rw [if_neg hv, if_neg hv]

end Chronicle

/-! ## The plan that a chronicle tells of -/

/-- The lists of the plan are those of the chronicle. -/
structure Tells (h : Chronicle) (p : Plan α) : Prop where
  mem_known : ∀ v, v ∈ h.known ↔ v ∈ p.ids
  fresh_eq : h.fresh = p.nextId
  predecessors_eq : ∀ v, p.predecessors v = h.sourcesOf v
  successors_eq : ∀ v, p.successors v = h.targetsOf v
  nodup : h.live.Nodup

namespace Tells

variable {h : Chronicle}

theorem tells_empty : Tells .empty (empty : Plan α) where
  mem_known _ := Iff.rfl
  fresh_eq := rfl
  predecessors_eq _ := rfl
  successors_eq _ := rfl
  nodup := .nil

variable (hp : Tells h p)
include hp

/-- Connecting asks for what the chronicle asks for: an edge at the end leaves no gap. -/
theorem connectable_iff :
    p.Connectable s (p.successors s).length t (p.predecessors t).length ↔ h.Allows s t := by
  rw [Chronicle.Allows, hp.mem_known, hp.mem_known, ← Chronicle.mem_targetsOf_iff,
    ← hp.successors_eq]
  exact ⟨fun hc ↦ ⟨hc.source_mem, hc.target_mem, hc.source_ne_target, hc.notMem_successors⟩,
    fun ⟨hs, ht, hne, hnew⟩ ↦ ⟨hs, ht, hne, hnew, Nat.le_refl _, Nat.le_refl _⟩⟩

theorem exists_connect_iff : (∃ q, p.connect s t = .ok q) ↔ h.Allows s t := by
  rw [← hp.connectable_iff]
  constructor
  · rintro ⟨q, hq⟩
    exact (connectAt_eq_ok_iff.mp hq).1
  · exact fun hc ↦ ⟨_, connectAt_eq_ok_iff.mpr ⟨hc, rfl⟩⟩

theorem exists_disconnect_iff : (∃ e q, p.disconnect s t = .ok (e, q)) ↔ (s, t) ∈ h.live := by
  constructor
  · rintro ⟨e, q, hq⟩
    obtain ⟨ht, -, -, -⟩ := disconnect_eq_ok_iff.mp hq
    rwa [hp.successors_eq, Chronicle.mem_targetsOf_iff] at ht
  · intro hlive
    refine ⟨_, _, disconnect_eq_ok_iff.mpr ⟨?_, ?_, rfl, rfl⟩⟩
    · rwa [hp.successors_eq, Chronicle.mem_targetsOf_iff]
    · rwa [hp.predecessors_eq, Chronicle.mem_sourcesOf_iff]

/-! ## One move -/

theorem add (op : α) : Tells { h with known := h.known ++ [h.fresh] } (p.add op).2 where
  mem_known v := by
    rw [List.mem_append, List.mem_singleton, hp.mem_known, hp.fresh_eq, mem_ids_add, or_comm]
  fresh_eq := by
    rw [nextId_add, ← hp.fresh_eq, Chronicle.fresh, List.length_append, List.length_singleton,
      Chronicle.fresh, OpId.next, UInt64.ofNat_add]
    rfl
  predecessors_eq := hp.predecessors_eq
  successors_eq := hp.successors_eq
  nodup := hp.nodup

theorem insertEdge (hst : h.Allows s t) :
    Tells { h with live := h.live ++ [(s, t)] }
      (p.insertEdge s (p.successors s).length t (p.predecessors t).length) where
  mem_known := hp.mem_known
  fresh_eq := hp.fresh_eq
  predecessors_eq v := by
    rw [predecessors_insertEdge, List.insertIdx_length_self, Chronicle.sourcesOf,
      Chronicle.ends_append_singleton, ← Chronicle.sourcesOf, ← hp.predecessors_eq]
    by_cases hv : v = t
    · rw [if_pos hv, if_pos hv, hv]
    · rw [if_neg hv, if_neg hv]
  successors_eq v := by
    rw [successors_insertEdge, List.insertIdx_length_self, Chronicle.targetsOf,
      Chronicle.ends_append_singleton, ← Chronicle.targetsOf, ← hp.successors_eq]
    by_cases hv : v = s
    · rw [if_pos hv, if_pos hv, hv]
    · rw [if_neg hv, if_neg hv]
  nodup := by
    obtain ⟨-, -, -, hnew⟩ := hst
    exact List.concat_eq_append .. ▸ List.Nodup.concat hnew hp.nodup

theorem eraseEdge : Tells { h with live := h.live.erase (s, t) } (p.eraseEdge s t) where
  mem_known := hp.mem_known
  fresh_eq := hp.fresh_eq
  predecessors_eq v := by
    rw [predecessors_eraseEdge, Chronicle.sourcesOf,
      Chronicle.ends_erase fun x h₂ h₁ ↦ Prod.ext h₁ h₂, ← Chronicle.sourcesOf,
      ← hp.predecessors_eq]
    by_cases hv : v = t
    · rw [if_pos hv, if_pos hv, hv]
    · rw [if_neg hv, if_neg hv]
  successors_eq v := by
    rw [successors_eraseEdge, Chronicle.targetsOf,
      Chronicle.ends_erase fun x h₁ h₂ ↦ Prod.ext h₁ h₂, ← Chronicle.targetsOf,
      ← hp.successors_eq]
    by_cases hv : v = s
    · rw [if_pos hv, if_pos hv, hv]
    · rw [if_neg hv, if_neg hv]
  nodup := hp.nodup.erase _

/-- A move does the same to the plan and to the chronicle, also where it is refused. -/
theorem step (m : Move α) : Tells (h.step m) (m.perform p) := by
  cases m with
  | add op => exact hp.add op
  | connect s t =>
    by_cases hst : h.Allows s t
    · have hq : p.connect s t = .ok _ := connectAt_eq_ok_iff.mpr ⟨hp.connectable_iff.mpr hst, rfl⟩
      rw [Chronicle.step, if_pos hst, Move.perform, Move.toCall, Call.perform, hq]
      exact hp.insertEdge hst
    · rw [Chronicle.step, if_neg hst, Move.perform, Move.toCall, Call.perform]
      exact orElse_induction hp fun q hq ↦ absurd (hp.exists_connect_iff.mp ⟨q, hq⟩) hst
  | disconnect s t =>
    rw [Chronicle.step, Move.perform, Move.toCall, Call.perform]
    by_cases hst : (s, t) ∈ h.live
    · obtain ⟨e, q, hq⟩ := hp.exists_disconnect_iff.mpr hst
      obtain ⟨-, -, -, rfl⟩ := disconnect_eq_ok_iff.mp hq
      rw [hq]
      exact hp.eraseEdge
    · rw [List.erase_of_not_mem hst]
      refine orElse_induction hp fun q hq ↦ absurd ?_ hst
      obtain ⟨ht, -⟩ := disconnect_map_eq_ok hq
      rwa [hp.successors_eq, Chronicle.mem_targetsOf_iff] at ht

end Tells

theorem tells_replay (moves : List (Move α)) :
    Tells (.ofMoves moves) (replay Move.perform moves) := by
  induction moves using List.reverseRecOn with
  | nil => exact Tells.tells_empty
  | append_singleton moves m ih =>
    rw [Chronicle.ofMoves_append_singleton, replay_append_singleton]
    exact ih.step m

/-! ## Moments -/

/-- The edge is there since the move at place `i`, which connected it: no move after that takes it
out. -/
structure IsSince (moves : List (Move α)) (e : OpId × OpId) (i : Nat) : Prop where
  move : moves[i]? = some (.connect e.1 e.2)
  accepted : ∃ q, (replay Move.perform (moves.take i)).connect e.1 e.2 = .ok q
  kept : ∀ j, i < j → moves[j]? ≠ some (.disconnect e.1 e.2)

theorem isSince_append_singleton {moves : List (Move α)} {m : Move α} :
    IsSince (moves ++ [m]) e i ↔
      (IsSince moves e i ∧ m ≠ .disconnect e.1 e.2) ∨
      (i = moves.length ∧ m = .connect e.1 e.2 ∧
        ∃ q, (replay Move.perform moves).connect e.1 e.2 = .ok q) := by
  have hlast : (moves ++ [m])[moves.length]? = some m := List.getElem?_concat_length
  have hold : ∀ j < moves.length, (moves ++ [m])[j]? = moves[j]? :=
    fun j hj ↦ List.getElem?_append_left hj
  have hnone : ∀ j, moves.length < j → (moves ++ [m])[j]? = none := by
    intro j hj
    rw [List.getElem?_eq_none_iff, List.length_append, List.length_singleton]
    exact hj
  constructor
  · rintro ⟨hmove, haccepted, hkept⟩
    rcases Nat.lt_trichotomy i moves.length with hi | rfl | hi
    · rw [hold i hi] at hmove
      rw [List.take_append_of_le_length (Nat.le_of_lt hi)] at haccepted
      refine .inl ⟨⟨hmove, haccepted, fun j hj hdisconnect ↦ ?_⟩, fun hm ↦ ?_⟩
      · have hjlt := (List.getElem?_eq_some_iff.mp hdisconnect).1
        exact hkept j hj ((hold j hjlt).trans hdisconnect)
      · exact hkept moves.length hi (hlast.trans (congrArg some hm))
    · rw [List.take_left] at haccepted
      exact .inr ⟨rfl, Option.some.inj (hlast.symm.trans hmove), haccepted⟩
    · rw [hnone i hi] at hmove
      cases hmove
  · rintro (⟨⟨hmove, haccepted, hkept⟩, hm⟩ | ⟨rfl, rfl, haccepted⟩)
    · have hi := (List.getElem?_eq_some_iff.mp hmove).1
      refine ⟨(hold i hi).trans hmove, ?_, fun j hj ↦ ?_⟩
      · rwa [List.take_append_of_le_length (Nat.le_of_lt hi)]
      · rcases Nat.lt_trichotomy j moves.length with hjlt | rfl | hjlt
        · rw [hold j hjlt]
          exact hkept j hj
        · rw [hlast]
          exact fun h ↦ hm (Option.some.inj h)
        · rw [hnone j hjlt]
          exact nofun
    · refine ⟨hlast, ?_, fun j hj ↦ ?_⟩
      · rwa [List.take_left]
      · rw [hnone j hj]
        exact nofun

theorem IsSince.lt_length {moves : List (Move α)} (hi : IsSince moves e i) : i < moves.length :=
  (List.getElem?_eq_some_iff.mp hi.move).1

/-- The list holds the edges there are, in the order of the moments since which they are there. -/
structure Dated (moves : List (Move α)) (live : List (OpId × OpId)) : Prop where
  mem_iff : ∀ e, e ∈ live ↔ ∃ i, IsSince moves e i
  ascending : live.Pairwise fun e e' ↦
    ∀ i i', IsSince moves e i → IsSince moves e' i' → i < i'

namespace Dated

variable {moves : List (Move α)} {m : Move α} {live : List (OpId × OpId)} (hd : Dated moves live)
include hd

/-- A move that neither connects an edge nor takes one out. -/
theorem append_of_forall_iff
    (h : ∀ e i, IsSince (moves ++ [m]) e i ↔ IsSince moves e i) : Dated (moves ++ [m]) live := by
  obtain ⟨hmem, hasc⟩ := hd
  constructor <;> simp only [h]
  · exact hmem
  · exact hasc

theorem append_connect (hnew : (s, t) ∉ live)
    (haccepted : ∃ q, (replay Move.perform moves).connect s t = .ok q) :
    Dated (moves ++ [.connect s t]) (live ++ [(s, t)]) := by
  have hsince : ∀ e i, IsSince (moves ++ [.connect s t]) e i ↔
      IsSince moves e i ∨ (i = moves.length ∧ e = (s, t)) := by
    intro e i
    rw [isSince_append_singleton, and_iff_left nofun]
    refine or_congr_right (and_congr_right fun _ ↦ ⟨?_, ?_⟩)
    · rintro ⟨⟨⟩, -⟩
      rfl
    · rintro rfl
      exact ⟨rfl, haccepted⟩
  have hold : ∀ {e i}, e ∈ live → IsSince (moves ++ [.connect s t]) e i → IsSince moves e i := by
    intro e i he hi
    refine ((hsince e i).mp hi).resolve_right fun h ↦ ?_
    exact hnew (h.2 ▸ he)
  have hlast : ∀ {i}, IsSince (moves ++ [.connect s t]) (s, t) i → i = moves.length := by
    intro i hi
    exact (((hsince _ i).mp hi).resolve_left fun h ↦ hnew ((hd.mem_iff _).mpr ⟨i, h⟩)).1
  constructor
  case mem_iff =>
    intro e
    rw [List.mem_append, List.mem_singleton, hd.mem_iff]
    simp only [hsince, exists_or, exists_eq_left]
  case ascending =>
    refine List.pairwise_append.mpr ⟨?_, List.pairwise_singleton _ _, ?_⟩
    · exact hd.ascending.imp_of_mem fun he he' h i i' hi hi' ↦ h i i' (hold he hi) (hold he' hi')
    · intro e he e' he' i i' hi hi'
      rw [List.mem_singleton] at he'
      rw [he'] at hi'
      rw [hlast hi']
      exact (hold he hi).lt_length

theorem append_disconnect (hnodup : live.Nodup) :
    Dated (moves ++ [.disconnect s t]) (live.erase (s, t)) := by
  have hsince : ∀ e i, IsSince (moves ++ [.disconnect s t]) e i ↔
      IsSince moves e i ∧ e ≠ (s, t) := by
    intro e i
    rw [isSince_append_singleton, or_iff_left fun h ↦ nomatch h.2.1]
    refine and_congr_right fun _ ↦ not_congr ⟨?_, ?_⟩
    · rintro ⟨⟩
      rfl
    · rintro rfl
      rfl
  constructor
  case mem_iff =>
    intro e
    rw [hnodup.mem_erase_iff, hd.mem_iff]
    simp only [hsince, exists_and_right]
    exact and_comm
  case ascending =>
    refine (hd.ascending.sublist List.erase_sublist).imp fun h i i' hi hi' ↦ ?_
    exact h i i' ((hsince _ i).mp hi).1 ((hsince _ i').mp hi').1

end Dated

theorem dated_ofMoves (moves : List (Move α)) : Dated moves (Chronicle.ofMoves moves).live := by
  induction moves using List.reverseRecOn with
  | nil => exact ⟨fun e ↦ ⟨nofun, fun ⟨i, hi⟩ ↦ nomatch hi.move⟩, .nil⟩
  | append_singleton moves m ih =>
    have htells := tells_replay moves
    rw [Chronicle.ofMoves_append_singleton]
    cases m with
    | add op =>
      refine ih.append_of_forall_iff fun e i ↦ ?_
      have hne : Move.add op ≠ .disconnect e.1 e.2 := nofun
      rw [isSince_append_singleton, or_iff_left fun h ↦ nomatch h.2.1]
      exact and_iff_left hne
    | connect s t =>
      rw [Chronicle.step]
      split
      · rename_i hst
        exact ih.append_connect hst.2.2.2 (htells.exists_connect_iff.mpr hst)
      · rename_i hst
        refine ih.append_of_forall_iff fun e i ↦ ?_
        rw [isSince_append_singleton, and_iff_left nofun, or_iff_left]
        rintro ⟨-, ⟨⟩, haccepted⟩
        exact hst (htells.exists_connect_iff.mp haccepted)
    | disconnect s t => exact ih.append_disconnect htells.nodup

/-! ## Slots and the order of connections -/

/-- **Slots follow the order of connections.** After any session of additions, connections and
disconnections there is one list of the edges there are, in the order in which they have been
connected, and the lists of every operator are parts of it. A session adds an edge at the end of that
list and takes it out where it is; it succeeds in this exactly where the list admits it. -/
theorem slots_follow_connections (moves : List (Move α)) :
    Dated moves (Chronicle.ofMoves moves).live ∧
    (∀ v, v ∈ (Chronicle.ofMoves moves).known ↔ v ∈ (replay Move.perform moves).ids) ∧
    (∀ v, (replay Move.perform moves).predecessors v = (Chronicle.ofMoves moves).sourcesOf v ∧
      (replay Move.perform moves).successors v = (Chronicle.ofMoves moves).targetsOf v) ∧
    ∀ s t, ((∃ q, (replay Move.perform moves).connect s t = .ok q) ↔
        (Chronicle.ofMoves moves).Allows s t) ∧
      ((∃ e q, (replay Move.perform moves).disconnect s t = .ok (e, q)) ↔
        (s, t) ∈ (Chronicle.ofMoves moves).live) := by
  have htells := tells_replay moves
  exact ⟨dated_ofMoves moves, htells.mem_known,
    fun v ↦ ⟨htells.predecessors_eq v, htells.successors_eq v⟩,
    fun s t ↦ ⟨htells.exists_connect_iff, htells.exists_disconnect_iff⟩⟩

end Plan

end Dataflow
