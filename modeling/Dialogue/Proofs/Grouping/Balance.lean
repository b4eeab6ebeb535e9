import Dialogue.Proofs.Grouping.Leftover
import Mathlib.Data.List.Forall2
import Mathlib.Data.List.Induction

/-!
The books of a grouper.  Every call turn that was pushed is open, was given one group, or was given
up, and every response that arrived sits in a group or still waits.
-/

namespace Dialogue.Conversation

def callTurns (pushed : List Json) : List Nat := pushed.findIdxs (0 < Turn.openedCalls ·)

def callsOf (pushed : List Json) (k : Nat) : Nat := (pushed[k]?.map Turn.openedCalls).getD 0

def StandsAt (pushed output : List Json) (k i : Nat) : Prop :=
  ∃ turn rest, pushed[k]? = some turn ∧ leftover? turn = some rest ∧ output[i]? = some rest ∧
    (output.take i).filter (!isGroup ·) = (pushed.take k).filterMap leftover?

structure Share where
  opener : Nat
  taken : List Json

def Share.turn (share : Share) : Json := groupTurn (share.taken.map repairResponse)

theorem lt_of_mem_callTurns {pushed : List Json} {k : Nat} (h : k ∈ callTurns pushed) :
    k < pushed.length := (List.mem_findIdxs_iff_exists_getElem_pos.1 h).1

theorem callsOf_pos {pushed : List Json} {k : Nat} (h : k ∈ callTurns pushed) :
    0 < callsOf pushed k := by
  obtain ⟨hk, hp⟩ := List.mem_findIdxs_iff_exists_getElem_pos.1 h
  rw [callsOf, List.getElem?_eq_getElem hk]
  exact of_decide_eq_true hp

theorem callsOf_append {pushed : List Json} {k : Nat} (h : k < pushed.length)
    (more : List Json) : callsOf (pushed ++ more) k = callsOf pushed k := by
  rw [callsOf, callsOf, List.getElem?_append_left h]

@[simp] theorem callsOf_length (pushed : List Json) (turn : Json) :
    callsOf (pushed ++ [turn]) pushed.length = Turn.openedCalls turn := by
  simp [callsOf]

theorem callTurns_append (pushed : List Json) (turn : Json) :
    callTurns (pushed ++ [turn]) =
      callTurns pushed ++ if Turn.openedCalls turn = 0 then [] else [pushed.length] := by
  rw [callTurns, List.findIdxs_append, List.findIdxs_singleton, Nat.zero_add]
  cases Turn.openedCalls turn <;> rfl

theorem callTurns_map_callsOf (pushed : List Json) :
    (callTurns pushed).map (callsOf pushed) = (pushed.map Turn.openedCalls).filter (0 < ·) := by
  induction pushed using List.reverseRecOn with
  | nil => rfl
  | append_singleton pushed turn ih =>
    rw [callTurns_append, List.map_append, List.map_append, List.filter_append, ← ih]
    congr 1
    · apply List.map_congr_left
      intro k hk
      exact callsOf_append (lt_of_mem_callTurns hk) _
    · cases h : Turn.openedCalls turn <;> simp [h]

theorem StandsAt.append {pushed output : List Json} {k i : Nat} (h : StandsAt pushed output k i)
    (turns more : List Json) : StandsAt (pushed ++ turns) (output ++ more) k i := by
  obtain ⟨turn, rest, hk, hl, hi, ht⟩ := h
  have hkl := (List.getElem?_eq_some_iff.1 hk).1
  have hil := (List.getElem?_eq_some_iff.1 hi).1
  refine ⟨turn, rest, ?_, hl, ?_, ?_⟩
  · rw [List.getElem?_append_left hkl, hk]
  · rw [List.getElem?_append_left hil, hi]
  · rw [List.take_append_of_le_length (Nat.le_of_lt hil),
      List.take_append_of_le_length (Nat.le_of_lt hkl), ht]

/-- The share's turn stands at the place `j` of the output, behind the turn whose calls it
answers. -/
def Placed (pushed output : List Json) (share : Share) (j : Nat) : Prop :=
  output[j]? = some share.turn ∧ ∃ i < j, StandsAt pushed output share.opener i

theorem Placed.append {pushed output : List Json} {share : Share} {j : Nat}
    (h : Placed pushed output share j) (turns more : List Json) :
    Placed (pushed ++ turns) (output ++ more) share j := by
  obtain ⟨hj, i, hi, hs⟩ := h
  refine ⟨?_, i, hi, hs.append turns more⟩
  rw [List.getElem?_append_left (List.getElem?_eq_some_iff.1 hj).1, hj]

namespace Grouper

theorem emit_of_ne_nil {g : Grouper} {needed : Nat} (h : g.waiting.take needed ≠ []) :
    g.emit needed =
      { g with
        waiting := g.waiting.drop needed
        events := g.events ++ (g.waiting.take needed).filterMap repairEvent?
        output := g.output ++ [groupTurn ((g.waiting.take needed).map repairResponse)]
        groups := g.groups + 1 } := by
  rw [emit, if_neg (by simpa using h)]

def receive (g : Grouper) (turn : Json) : Grouper :=
  if isGroup turn then settleNewest { g with waiting := g.waiting ++ responses turn } else g

theorem push_of_not_isObject (g : Grouper) {turn : Json} (h : turn.isObject = false) :
    g.push turn = { g with events := g.events ++ [.droppedTurn] } := by
  rw [push, h]
  rfl

theorem push_of_isObject (g : Grouper) {turn : Json} (h : turn.isObject = true) :
    g.push turn = (leftover? turn).elim (g.receive turn) (g.receive turn).pushPlain := by
  rw [push, leftover?, receive, h]
  cases hg : isGroup turn with
  | false =>
    rw [isGroup] at hg
    simp [hg]
  | true =>
    rw [isGroup] at hg
    simp only [hg, Bool.not_true, Bool.false_eq_true, ↓reduceIte]
    rw [others]
    split <;> rfl

theorem pushAll_append (g : Grouper) (front back : List Json) :
    g.pushAll (front ++ back) = (g.pushAll front).pushAll back := List.foldl_append

theorem pushAll_concat (g : Grouper) (front : List Json) (turn : Json) :
    g.pushAll (front ++ [turn]) = (g.pushAll front).push turn := pushAll_append g front [turn]

theorem push_of_isGroup_eq_false (g : Grouper) {turn : Json} (ho : turn.isObject = true)
    (h : isGroup turn = false) : g.push turn = g.pushPlain turn := by
  rw [isGroup] at h
  rw [push, ho, h]
  rfl

theorem push_of_responses (g : Grouper) {turn : Json} (hne : Turn.parts turn ≠ [])
    (h : ∀ part ∈ Turn.parts turn, Part.isResponse part = true) :
    g.push turn = settleNewest { g with waiting := g.waiting ++ Turn.parts turn } := by
  have hg : isGroup turn = true := by
    rw [isGroup, Turn.has, List.any_eq_true]
    obtain ⟨part, hp⟩ := List.exists_mem_of_ne_nil _ hne
    exact ⟨part, hp, h part hp⟩
  have hr : responses turn = Turn.parts turn := List.filter_eq_self.2 h
  have hn : others turn = [] := by
    rw [others, List.filter_eq_nil_iff]
    intro part hp
    rw [h part hp]
    exact Bool.false_ne_true
  have ho := Turn.isObject_of_parts_ne_nil hne
  rw [push_of_isObject g ho, receive, hg, if_pos rfl, hr, leftover?, ho, hg, hn]
  rfl

@[simp] theorem pending_emit (g : Grouper) (needed : Nat) :
    (g.emit needed).pending = g.pending := by
  rw [emit]
  split <;> rfl

@[simp] theorem waiting_emit (g : Grouper) (needed : Nat) :
    (g.emit needed).waiting = g.waiting.drop needed := by
  rw [emit]
  split <;> rfl

@[simp] theorem pending_settle (g : Grouper) (needed : Nat) :
    (g.settle needed).pending = g.pending := by
  rw [settle]
  split
  · exact pending_emit g needed
  · rfl

theorem pending_foldl_settle (counts : List Nat) (g : Grouper) :
    (counts.foldl settle g).pending = g.pending := by
  induction counts generalizing g with
  | nil => rfl
  | cons needed rest ih => rw [List.foldl_cons, ih, pending_settle]

theorem takeNewest?_eq_none {there : Nat} {pending : List Nat}
    (h : takeNewest? there pending = none) : ∀ n ∈ pending, there < n := by
  induction pending with
  | nil => nofun
  | cons n pending ih =>
    rw [takeNewest?] at h
    cases hn : takeNewest? there pending with
    | some found => rw [hn] at h; cases h
    | none =>
      rw [hn] at h
      dsimp only at h
      split at h
      · cases h
      · next hlt =>
        intro m hm
        cases hm with
        | head => exact Nat.lt_of_not_le hlt
        | tail _ hm => exact ih hn m hm

theorem takeNewest?_eq_some {there needed : Nat} {pending rest : List Nat}
    (h : takeNewest? there pending = some (needed, rest)) :
    ∃ l r, pending = l ++ needed :: r ∧ rest = l ++ r ∧ needed ≤ there ∧ ∀ n ∈ r, there < n := by
  induction pending generalizing rest with
  | nil => cases h
  | cons n pending ih =>
    rw [takeNewest?] at h
    cases hn : takeNewest? there pending with
    | some found =>
      obtain ⟨newest, others⟩ := found
      rw [hn] at h
      cases h
      obtain ⟨l, r, rfl, rfl, hle, hr⟩ := ih hn
      exact ⟨n :: l, r, rfl, rfl, hle, hr⟩
    | none =>
      rw [hn] at h
      dsimp only at h
      split at h
      · next hle =>
        cases h
        exact ⟨[], pending, rfl, rfl, hle, takeNewest?_eq_none hn⟩
      · cases h

end Grouper

/-- The books: `opened`, the owners of `shares` and `givenUp` are the call turns pushed so far. -/
structure Balance (pushed arrived : List Json) (g : Grouper) (opened givenUp : List Nat)
    (shares : List Share) : Prop where
  openers : (opened ++ shares.map Share.opener ++ givenUp).Perm (callTurns pushed)
  kept : g.output.filter (!isGroup ·) = pushed.filterMap leftover?
  groups : g.output.filter isGroup = shares.map Share.turn
  counted : g.groups = shares.length
  arrivals : shares.flatMap Share.taken ++ g.waiting = arrived
  responses : ∀ part ∈ arrived, Part.isResponse part = true
  sized : ∀ share ∈ shares, share.taken.length = callsOf pushed share.opener
  standing : ∀ k ∈ opened, ∃ i, StandsAt pushed g.output k i
  placed : List.Forall₂ (Placed pushed g.output) shares (g.output.findIdxs isGroup)

namespace Balance

variable {pushed arrived : List Json} {g : Grouper} {opened givenUp : List Nat}
  {shares : List Share}

theorem initial : Balance [] [] {} [] [] [] where
  openers := .nil
  kept := rfl
  groups := rfl
  counted := rfl
  arrivals := rfl
  responses := nofun
  sized := nofun
  standing := nofun
  placed := .nil

theorem of_eq (h : Balance pushed arrived g opened givenUp shares) {g' : Grouper}
    (ho : g'.output = g.output) (hw : g'.waiting = g.waiting) (hg : g'.groups = g.groups) :
    Balance pushed arrived g' opened givenUp shares where
  openers := h.openers
  kept := by rw [ho, h.kept]
  groups := by rw [ho, h.groups]
  counted := by rw [hg, h.counted]
  arrivals := by rw [hw, h.arrivals]
  responses := h.responses
  sized := h.sized
  standing := by rw [ho]; exact h.standing
  placed := by rw [ho]; exact h.placed

theorem opened_mem (h : Balance pushed arrived g opened givenUp shares) {k : Nat}
    (hk : k ∈ opened) : k ∈ callTurns pushed :=
  h.openers.subset (List.mem_append_left _ (List.mem_append_left _ hk))

theorem opener_mem (h : Balance pushed arrived g opened givenUp shares) {share : Share}
    (hs : share ∈ shares) : share.opener ∈ callTurns pushed :=
  h.openers.subset (List.mem_append_left _ (List.mem_append_right _ (List.mem_map_of_mem hs)))

theorem receive (h : Balance pushed arrived g opened givenUp shares) {parts : List Json}
    (hp : ∀ part ∈ parts, Part.isResponse part = true) :
    Balance pushed (arrived ++ parts) { g with waiting := g.waiting ++ parts } opened givenUp
      shares where
  openers := h.openers
  kept := h.kept
  groups := h.groups
  counted := h.counted
  arrivals := by rw [← h.arrivals, List.append_assoc]
  responses := by
    intro part hpart
    rcases List.mem_append.1 hpart with hpart | hpart
    · exact h.responses part hpart
    · exact hp part hpart
  sized := h.sized
  standing := h.standing
  placed := h.placed

theorem skip (h : Balance pushed arrived g opened givenUp shares) {turn : Json}
    (hl : leftover? turn = none) :
    Balance (pushed ++ [turn]) arrived g opened givenUp shares where
  openers := by
    rw [callTurns_append, if_pos (openedCalls_of_leftover_eq_none hl), List.append_nil]
    exact h.openers
  kept := by simp [h.kept, hl]
  groups := h.groups
  counted := h.counted
  arrivals := h.arrivals
  responses := h.responses
  sized := by
    intro share hs
    rw [callsOf_append (lt_of_mem_callTurns (h.opener_mem hs)), h.sized share hs]
  standing := by
    intro k hk
    obtain ⟨i, hi⟩ := h.standing k hk
    exact ⟨i, by simpa using hi.append [turn] []⟩
  placed := h.placed.imp fun share j hj => by simpa using hj.append [turn] []

theorem keep (h : Balance pushed arrived g opened givenUp shares) {turn rest : Json}
    (hl : leftover? turn = some rest) :
    Balance (pushed ++ [turn]) arrived (g.pushPlain rest)
      (opened ++ if Turn.openedCalls turn = 0 then [] else [pushed.length]) givenUp shares where
  openers := by
    rw [callTurns_append]
    refine .trans ?_ (h.openers.append_right _)
    simp only [List.append_assoc]
    exact .append_left _ (.trans List.perm_append_comm (by simp [List.append_assoc]))
  kept := by simp [Grouper.pushPlain, h.kept, hl, isGroup_leftover hl]
  groups := by simp [Grouper.pushPlain, h.groups, isGroup_leftover hl]
  counted := h.counted
  arrivals := h.arrivals
  responses := h.responses
  sized := by
    intro share hs
    rw [callsOf_append (lt_of_mem_callTurns (h.opener_mem hs)), h.sized share hs]
  standing := by
    intro k hk
    rcases List.mem_append.1 hk with hk | hk
    · obtain ⟨i, hi⟩ := h.standing k hk
      exact ⟨i, hi.append [turn] [rest]⟩
    · split at hk
      · cases hk
      · cases List.mem_singleton.1 hk
        exact ⟨g.output.length, turn, rest, by simp, hl, by simp [Grouper.pushPlain],
          by simp [Grouper.pushPlain, h.kept]⟩
  placed := by
    simp only [Grouper.pushPlain, List.findIdxs_append, List.findIdxs_singleton,
      isGroup_leftover hl, Bool.false_eq_true, ↓reduceIte, List.append_nil]
    exact h.placed.imp fun share j hj => hj.append [turn] [rest]

theorem isResponse_of_mem_waiting (h : Balance pushed arrived g opened givenUp shares)
    {part : Json} (hp : part ∈ g.waiting) : Part.isResponse part = true := by
  apply h.responses
  rw [← h.arrivals]
  exact List.mem_append_right _ hp

theorem take_ne_nil (h : Balance pushed arrived g opened givenUp shares) {k : Nat}
    (hk : k ∈ opened) (hw : callsOf pushed k ≤ g.waiting.length) :
    g.waiting.take (callsOf pushed k) ≠ [] := by
  intro he
  have hl := congrArg List.length he
  rw [List.length_take_of_le hw] at hl
  exact absurd hl (Nat.ne_of_gt (callsOf_pos (h.opened_mem hk)))

theorem isGroup_take (h : Balance pushed arrived g opened givenUp shares) {k : Nat}
    (hk : k ∈ opened) (hw : callsOf pushed k ≤ g.waiting.length) :
    isGroup (groupTurn ((g.waiting.take (callsOf pushed k)).map repairResponse)) = true := by
  apply isGroup_groupTurn
  · rw [Ne, List.map_eq_nil_iff]
    exact h.take_ne_nil hk hw
  · intro part hp
    obtain ⟨response, hm, rfl⟩ := List.mem_map.1 hp
    exact isResponse_repairResponse (h.isResponse_of_mem_waiting (List.mem_of_mem_take hm))

theorem emit {l r : List Nat} {k : Nat}
    (h : Balance pushed arrived g (l ++ k :: r) givenUp shares)
    (hw : callsOf pushed k ≤ g.waiting.length) :
    Balance pushed arrived (g.emit (callsOf pushed k)) (l ++ r) givenUp
      (shares ++ [⟨k, g.waiting.take (callsOf pushed k)⟩]) := by
  have hk : k ∈ l ++ k :: r := List.mem_append_right _ (.head _)
  have hg := h.isGroup_take hk hw
  rw [Grouper.emit_of_ne_nil (h.take_ne_nil hk hw)]
  exact {
    openers := by
      refine .trans ?_ h.openers
      rw [List.perm_iff_count]
      intro j
      simp only [List.map_append, List.map_cons, List.map_nil, List.count_append, List.count_cons,
        List.count_nil]
      omega
    kept := by
      rw [List.filter_append, h.kept]
      simp [hg, -List.map_take]
    groups := by
      rw [List.filter_append, h.groups, List.map_append]
      simp [hg, Share.turn, -List.map_take]
    counted := by simp [h.counted]
    arrivals := by simp [← h.arrivals]
    responses := h.responses
    sized := by
      intro share hs
      rcases List.mem_append.1 hs with hs | hs
      · exact h.sized share hs
      · cases List.mem_singleton.1 hs
        exact List.length_take_of_le hw
    standing := by
      intro j hj
      obtain ⟨i, hi⟩ := h.standing j (by
        rcases List.mem_append.1 hj with hj | hj
        · exact List.mem_append_left _ hj
        · exact List.mem_append_right _ (.tail _ hj))
      exact ⟨i, by simpa using hi.append [] [_]⟩
    placed := by
      rw [List.findIdxs_append, List.findIdxs_singleton, if_pos hg, Nat.zero_add]
      refine List.rel_append (h.placed.imp fun share j hj => ?_) (.cons ?_ .nil)
      · simpa using hj.append [] [_]
      · obtain ⟨i, hi⟩ := h.standing k (by simp)
        have hlt : i < g.output.length := by
          obtain ⟨_, _, _, _, hget, _⟩ := hi
          exact (List.getElem?_eq_some_iff.1 hget).1
        exact ⟨by simp [Share.turn], i, hlt, by simpa using hi.append [] [_]⟩ }

theorem giveUp {k : Nat} {r : List Nat}
    (h : Balance pushed arrived g (k :: r) givenUp shares) :
    Balance pushed arrived g r (givenUp ++ [k]) shares where
  openers := by
    refine .trans ?_ h.openers
    rw [List.perm_iff_count]
    intro j
    simp only [List.count_append, List.count_cons, List.count_nil]
    omega
  kept := h.kept
  groups := h.groups
  counted := h.counted
  arrivals := h.arrivals
  responses := h.responses
  sized := h.sized
  standing := fun j hj => h.standing j (.tail _ hj)
  placed := h.placed

theorem settleNewest (h : Balance pushed arrived g opened givenUp shares)
    (hp : g.pending = opened.map (callsOf pushed)) :
    ∃ opened' shares', Balance pushed arrived g.settleNewest opened' givenUp shares' ∧
      g.settleNewest.pending = opened'.map (callsOf pushed) := by
  rw [Grouper.settleNewest]
  cases ht : Grouper.takeNewest? g.waiting.length g.pending with
  | none => exact ⟨opened, shares, h, hp⟩
  | some found =>
    obtain ⟨needed, rest⟩ := found
    obtain ⟨l, r, hpend, rfl, hle, -⟩ := Grouper.takeNewest?_eq_some ht
    rw [hp] at hpend
    obtain ⟨ol, tail, rfl, rfl, hcons⟩ := List.map_eq_append_iff.1 hpend
    obtain ⟨k, or, rfl, rfl, rfl⟩ := List.map_eq_cons_iff.1 hcons
    have hg : Balance pushed arrived { g with pending := (ol ++ or).map (callsOf pushed) }
        (ol ++ k :: or) givenUp shares := h.of_eq rfl rfl rfl
    dsimp only
    rw [← List.map_append]
    exact ⟨ol ++ or, _, hg.emit hle, Grouper.pending_emit ..⟩

theorem settleAll {opened : List Nat} {g : Grouper} {givenUp : List Nat} {shares : List Share}
    (h : Balance pushed arrived g opened givenUp shares) :
    ∃ left shares',
      Balance pushed arrived ((opened.map (callsOf pushed)).foldl Grouper.settle g) []
        (givenUp ++ left) shares' ∧
      ((opened.map (callsOf pushed)).foldl Grouper.settle g).waiting.length ≤ g.waiting.length ∧
      ∀ k ∈ left, ((opened.map (callsOf pushed)).foldl Grouper.settle g).waiting.length <
        callsOf pushed k := by
  induction opened generalizing g givenUp shares with
  | nil => exact ⟨[], shares, by simpa using h, Nat.le_refl _, nofun⟩
  | cons k rest ih =>
    rw [List.map_cons, List.foldl_cons]
    by_cases hle : callsOf pushed k ≤ g.waiting.length
    · rw [Grouper.settle, if_pos hle]
      have hk : Balance pushed arrived (g.emit (callsOf pushed k)) rest givenUp _ :=
        Balance.emit (l := []) h hle
      obtain ⟨left, shares', hb, hw, hl⟩ := ih hk
      refine ⟨left, shares', hb, Nat.le_trans hw ?_, hl⟩
      rw [Grouper.waiting_emit, List.length_drop]
      exact Nat.sub_le ..
    · rw [Grouper.settle, if_neg hle]
      -- The queue only gets shorter, so what it cannot fill now it cannot fill in the end.
      obtain ⟨left, shares', hb, hw, hl⟩ := ih h.giveUp
      refine ⟨k :: left, shares', by simpa using hb, hw, ?_⟩
      intro j hj
      cases hj with
      | head => exact Nat.lt_of_le_of_lt hw (Nat.lt_of_not_le hle)
      | tail _ hj => exact hl j hj

end Balance

def Balanced (pushed : List Json) (g : Grouper) (givenUp : List Nat) : Prop :=
  ∃ opened shares, Balance pushed (pushed.flatMap responses) g opened givenUp shares ∧
    g.pending = opened.map (callsOf pushed)

namespace Balanced

variable {pushed : List Json} {g : Grouper} {givenUp : List Nat}

theorem initial : Balanced [] {} [] := ⟨[], [], .initial, rfl⟩

theorem keep? {opened : List Nat} {shares : List Share} {turn : Json}
    (h : Balance pushed ((pushed ++ [turn]).flatMap responses) g opened givenUp shares)
    (hp : g.pending = opened.map (callsOf pushed)) :
    Balanced (pushed ++ [turn]) ((leftover? turn).elim g g.pushPlain) givenUp := by
  have hmap : opened.map (callsOf (pushed ++ [turn])) = opened.map (callsOf pushed) :=
    List.map_congr_left fun k hk => callsOf_append (lt_of_mem_callTurns (h.opened_mem hk)) _
  cases hl : leftover? turn with
  | none => exact ⟨opened, shares, h.skip hl, by rw [hmap]; exact hp⟩
  | some rest =>
    refine ⟨_, shares, h.keep hl, ?_⟩
    rw [List.map_append, hmap, ← hp, Option.elim_some, Grouper.pushPlain, openedCalls_leftover hl]
    split
    · exact (List.append_nil _).symm
    · rw [List.map_singleton, callsOf_length]

theorem push (h : Balanced pushed g givenUp) (turn : Json) :
    Balanced (pushed ++ [turn]) (g.push turn) givenUp := by
  obtain ⟨opened, shares, hb, hp⟩ := h
  cases ho : turn.isObject with
  | false =>
    rw [Grouper.push_of_not_isObject g ho]
    have hl : leftover? turn = none := by rw [leftover?, ho]; rfl
    have ha : (pushed ++ [turn]).flatMap responses = pushed.flatMap responses := by
      simp [responses_of_not_isObject ho]
    rw [← ha] at hb
    have hg : Balance pushed ((pushed ++ [turn]).flatMap responses)
        { g with events := g.events ++ [.droppedTurn] } opened givenUp shares :=
      hb.of_eq rfl rfl rfl
    have hk := keep? hg hp
    rwa [hl] at hk
  | true =>
    rw [Grouper.push_of_isObject g ho]
    have hr := hb.receive fun _ (hp : _ ∈ responses turn) => isResponse_of_mem_responses hp
    rw [show pushed.flatMap responses ++ responses turn = (pushed ++ [turn]).flatMap responses by
      simp] at hr
    cases hg : isGroup turn with
    | false =>
      rw [Grouper.receive, hg]
      exact keep? (hr.of_eq rfl (by simp [isGroup_eq_false_iff.1 hg]) rfl) hp
    | true =>
      rw [Grouper.receive, hg]
      obtain ⟨opened', shares', hs, hp'⟩ := hr.settleNewest hp
      exact keep? hs hp'

theorem flush (h : Balanced pushed g givenUp) :
    ∃ left shares, Balance pushed (pushed.flatMap responses) g.flush [] (givenUp ++ left) shares ∧
      g.flush.pending = [] ∧ ∀ k ∈ left, g.flush.waiting.length < callsOf pushed k := by
  obtain ⟨opened, shares, hb, hp⟩ := h
  have hg : Balance pushed (pushed.flatMap responses) { g with pending := [] } opened givenUp
      shares := hb.of_eq rfl rfl rfl
  obtain ⟨left, shares', hf, -, hl⟩ := hg.settleAll
  rw [← hp] at hf hl
  exact ⟨left, shares', hf, Grouper.pending_foldl_settle .., hl⟩

end Balanced

end Dialogue.Conversation
