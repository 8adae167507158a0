import Timetable.Proofs.Ident.Written
import Timetable.Proofs.Table
import Timetable.Registry.Revenue

namespace Timetable

/-- A route and a direction in which passengers are carried at a stop. -/
structure Carriage where
  stop : Ident
  route : Ident
  direction : String
  deriving DecidableEq

namespace Carriage

def question (c : Carriage) : RevenueQuestion := .stopOnRoute c.stop c.route c.direction

/-- Whether the agency of the route and the direction have no underscore. The name of the route may
have some. -/
def Plain (c : Carriage) : Prop := '_' ∉ c.route.agency.toList ∧ '_' ∉ c.direction.toList

instance (c : Carriage) : Decidable c.Plain := inferInstanceAs (Decidable (_ ∧ _))

end Carriage

namespace RevenueKeys

variable {keys : RevenueKeys}

@[simp] theorem toList_key (route : Ident) (direction : String) : (key route direction).toList =
    route.agency.toList ++ '_' :: (route.name.toList ++ '_' :: direction.toList) := by
  rw [key, String.toList_append, String.toList_append, Ident.toList_text]
  simp

/-- The agency ends at the first underscore of a key and the direction begins after the last. -/
theorem key_inj {c d : Carriage} (hc : c.Plain) (hd : d.Plain) :
    key c.route c.direction = key d.route d.direction ↔
      c.route = d.route ∧ c.direction = d.direction := by
  rw [← String.toList_inj, toList_key, toList_key, append_cons_inj_first hc.1 hd.1,
    append_cons_inj_last hc.2 hd.2]
  simp only [String.toList_inj]
  rw [← and_assoc, ← Ident.mk.injEq]

theorem answer_stop_iff {stop : Ident} :
    keys.answer (.stop stop) ↔ keys.isEmpty ∨ stop ∈ keys := by
  rw [answer, Bool.or_eq_true, Std.ExtTreeMap.mem_iff_contains]

theorem answer_stopOnRoute_iff {stop route : Ident} {direction : String} :
    keys.answer (.stopOnRoute stop route direction) ↔
      keys.isEmpty ∨ key route direction ∈ keys.listAt stop := by
  rw [answer, Bool.or_eq_true, Table.listAt]
  apply or_congr_right
  cases keys[stop]? with
  | none => simp
  | some ks => simp

/-- Whether the keys of each stop are those of the routes and directions that are listed with it. -/
def LoadedFrom (keys : RevenueKeys) (carried : List Carriage) : Prop :=
  ∀ stop k, k ∈ keys.listAt stop ↔ ∃ c ∈ carried, c.stop = stop ∧ key c.route c.direction = k

def ofCarriages (carried : List Carriage) : RevenueKeys :=
  (Table.group (fun c => [c.stop]) carried).map fun _ => List.map fun c => key c.route c.direction

theorem loadedFrom_ofCarriages (carried : List Carriage) :
    (ofCarriages carried).LoadedFrom carried := by
  intro stop k
  rw [ofCarriages, Table.listAt_map, Table.listAt_group, List.mem_map]
  simp only [List.mem_filter, decide_eq_true_eq, and_assoc]

theorem LoadedFrom.answer_iff {carried : List Carriage} (h : keys.LoadedFrom carried)
    (plain : ∀ c ∈ carried, c.Plain) {c : Carriage} (hc : c.Plain) :
    keys.answer c.question ↔ keys.isEmpty ∨ c ∈ carried := by
  rw [Carriage.question, answer_stopOnRoute_iff, h]
  apply or_congr_right
  constructor
  · rintro ⟨d, hd, hstop, hkey⟩
    obtain ⟨hroute, hdirection⟩ := (key_inj (plain d hd) hc).1 hkey
    have he : d = c := by
      rw [Carriage.mk.injEq]
      exact ⟨hstop, hroute, hdirection⟩
    exact he ▸ hd
  · exact fun hmem => ⟨c, hmem, rfl, rfl⟩

end RevenueKeys

namespace RevenueIndex

inductive Request where
  | load (keys : RevenueKeys)
  | ask (q : RevenueQuestion)

def handle (i : RevenueIndex) : Request → RevenueIndex
  | .load keys => load keys
  | .ask q => (i.ask q).1

def run (i : RevenueIndex) (requests : List Request) : RevenueIndex := requests.foldl handle i

def Request.keys? : Request → Option RevenueKeys
  | .load keys => some keys
  | .ask _ => none

/-- The keys that were loaded last, and none at first. -/
def loaded (requests : List Request) : RevenueKeys :=
  (requests.reverse.findSome? Request.keys?).getD ∅

/-- Whether every remembered answer is the one that the keys give. -/
def Sound (i : RevenueIndex) : Prop :=
  ∀ q a, i.remembered.lookup q = some a → a = i.keys.answer q

theorem sound_load (keys : RevenueKeys) : (load keys).Sound := nofun

@[simp] theorem keys_ask (i : RevenueIndex) (q : RevenueQuestion) : (i.ask q).1.keys = i.keys := by
  rw [ask]
  split <;> rfl

namespace Sound

variable {i : RevenueIndex}

theorem answer (h : i.Sound) (q : RevenueQuestion) : (i.ask q).2 = i.keys.answer q := by
  rw [ask]
  split
  · next a ha => exact h q a ha
  · rfl

theorem ask (h : i.Sound) (q : RevenueQuestion) : (i.ask q).1.Sound := by
  rw [RevenueIndex.ask]
  split
  · exact h
  · intro p a ha
    rw [List.lookup_cons] at ha
    split at ha
    · next hp =>
      obtain rfl := eq_of_beq hp
      exact (Option.some.inj ha).symm
    · exact h p a ha

theorem handle (h : i.Sound) (request : Request) : (i.handle request).Sound := by
  cases request with
  | load keys => exact sound_load keys
  | ask q => exact h.ask q

theorem run (h : i.Sound) (requests : List Request) : (i.run requests).Sound := by
  induction requests generalizing i with
  | nil => exact h
  | cons request requests ih => exact ih (h.handle request)

end Sound

theorem loaded_concat (requests : List Request) (request : Request) :
    loaded (requests ++ [request]) = request.keys?.getD (loaded requests) := by
  rw [loaded, List.reverse_concat, List.findSome?_cons, loaded]
  cases request.keys? <;> rfl

theorem keys_handle (i : RevenueIndex) (request : Request) :
    (i.handle request).keys = request.keys?.getD i.keys := by
  cases request with
  | load keys => rfl
  | ask q => exact keys_ask i q

theorem keys_run (requests : List Request) : ((load ∅).run requests).keys = loaded requests := by
  induction requests using List.reverseRecOn with
  | nil => rfl
  | append_singleton requests request ih =>
    rw [loaded_concat, ← ih, ← keys_handle, run, List.foldl_append]
    rfl

theorem answer_run (requests : List Request) (q : RevenueQuestion) :
    (((load ∅).run requests).ask q).2 = (loaded requests).answer q := by
  rw [((sound_load ∅).run requests).answer, keys_run]

/-- Whatever was loaded and asked before, a question is answered from the keys that were loaded
last: yes if there are none; about a stop, if it has keys; about a route and a direction, if their
key is among those of the stop. If the keys come from routes and directions at stops, and neither
agencies nor directions have an underscore, that is if just this was among them. -/
theorem answered_as_loaded (requests : List Request) :
    let keys := loaded requests
    let answer q := (((load ∅).run requests).ask q).2
    (∀ stop, answer (.stop stop) ↔ keys.isEmpty ∨ stop ∈ keys) ∧
    (∀ stop route direction, answer (.stopOnRoute stop route direction) ↔
      keys.isEmpty ∨ RevenueKeys.key route direction ∈ keys.listAt stop) ∧
    ∀ carried, keys.LoadedFrom carried → (∀ c ∈ carried, c.Plain) →
      ∀ c : Carriage, c.Plain → (answer c.question ↔ keys.isEmpty ∨ c ∈ carried) := by
  intro keys answer
  have hanswer (q : RevenueQuestion) : answer q = keys.answer q := answer_run requests q
  simp only [hanswer]
  refine ⟨fun stop => RevenueKeys.answer_stop_iff, fun stop route direction =>
    RevenueKeys.answer_stopOnRoute_iff, fun carried h plain c hc => h.answer_iff plain hc⟩

/-- Two routes at a stop whose keys begin alike, and one at another stop. -/
def carriedDay : List Carriage :=
  [⟨⟨"A", "X"⟩, ⟨"A", "B_4"⟩, "0"⟩, ⟨⟨"A", "X"⟩, ⟨"A", "B"⟩, "4"⟩, ⟨⟨"A", "Y"⟩, ⟨"A", "B"⟩, "0"⟩]

theorem answered_as_loaded_carriedDay :
    let c : Carriage := ⟨⟨"A", "X"⟩, ⟨"A", "B_4"⟩, "4"⟩
    let requests := [.ask c.question, .load (RevenueKeys.ofCarriages carriedDay), .ask c.question]
    (loaded requests).LoadedFrom carriedDay ∧ (∀ c ∈ carriedDay, c.Plain) ∧ c.Plain ∧
    ((load ∅).ask c.question).2 ∧ ¬(((load ∅).run requests).ask c.question).2 ∧
    (((load ∅).run requests).ask (.stopOnRoute ⟨"A", "X"⟩ ⟨"A", "B_4"⟩ "0")).2 := by
  intro c requests
  have hloaded : (loaded requests).LoadedFrom carriedDay :=
    RevenueKeys.loadedFrom_ofCarriages carriedDay
  have hplain : ∀ c ∈ carriedDay, c.Plain := by decide
  have hc : c.Plain := by decide
  have hanswer := (answered_as_loaded requests).2.2 carriedDay hloaded hplain
  have hnotEmpty : (loaded requests).isEmpty = false := by decide +kernel
  refine ⟨hloaded, hplain, hc, by decide +kernel, ?_, ?_⟩
  · rw [hanswer c hc, hnotEmpty]
    decide
  · apply (hanswer ⟨⟨"A", "X"⟩, ⟨"A", "B_4"⟩, "0"⟩ (by decide)).2
    exact .inr (by decide)

end RevenueIndex

end Timetable
