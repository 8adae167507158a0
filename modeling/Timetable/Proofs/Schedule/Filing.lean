import Timetable.Geo.Sphere
import Timetable.Proofs.Schedule.Consistency

namespace Timetable

/-- A list of exactly the things with a property, each once. -/
def Lists {α : Type} (l : List α) (p : α → Prop) : Prop := l.Nodup ∧ ∀ a, a ∈ l ↔ p a

namespace Lists

variable {α : Type} {l m : List α} {p q : α → Prop} {a : α}

theorem nil (h : ∀ a, ¬p a) : Lists [] p := by
  constructor
  · exact List.nodup_nil
  · intro a
    rw [iff_false_right (h a)]
    exact List.not_mem_nil

theorem congr (hl : Lists l p) (h : ∀ a, q a ↔ p a) : Lists l q :=
  ⟨hl.1, fun a => (hl.2 a).trans (h a).symm⟩

theorem concat (hl : Lists l p) (ha : ¬p a) (h : ∀ b, q b ↔ p b ∨ b = a) :
    Lists (l ++ [a]) q := by
  constructor
  · rw [← List.concat_eq_append]
    exact hl.1.concat fun hmem => ha ((hl.2 a).1 hmem)
  · intro b
    rw [List.mem_append, List.mem_singleton, hl.2, h]

theorem without [DecidableEq α] (hl : Lists l p) (h : ∀ b, q b ↔ p b ∧ b ≠ a) :
    Lists (l.filter (· ≠ a)) q := by
  constructor
  · exact hl.1.filter _
  · intro b
    rw [List.mem_filter, decide_eq_true_eq, hl.2, h]

theorem perm (hl : Lists l p) (hm : Lists m p) : l.Perm m := by
  apply (List.perm_ext_iff_of_nodup hl.1 hm.1).2
  intro a
  rw [hl.2, hm.2]

theorem count_eq_one [DecidableEq α] (hl : Lists l p) (ha : p a) : l.count a = 1 :=
  List.count_eq_one_of_mem hl.1 ((hl.2 a).2 ha)

end Lists

namespace Schedule

variable {R : Type}

def routeOf? (g : Schedule R) (trip : Ident) : Option Ident := (g.trips[trip]?).map (·.route)

def collectionOf? (g : Schedule R) (route : Ident) : Option Ident :=
  (g.routes[route]?).map (·.collection)

/-- Schedules in which trips, routes, collections and agencies agree on who belongs to whom. -/
structure Filed (g : Schedule R) : Prop where
  routes (route : Ident) (r : Route) : g.routes[route]? = some r →
    r.id = route ∧ Lists r.trips fun trip => g.routeOf? trip = some route
  collections (id : Ident) (c : RouteCollection) : g.collections[id]? = some c →
    c.id = id ∧ c.routes ≠ [] ∧ Lists c.routes fun route => g.collectionOf? route = some id
  agencies (a : Agency) : a ∈ g.agencies →
    Lists a.collections fun id => id ∈ g.collections ∧ id.agency = a.id
  distinct : g.agencyIds.Nodup
  collected (route id : Ident) : g.collectionOf? route = some id → id ∈ g.collections
  kept (id : Ident) : id ∈ g.collections → id.agency ∈ g.agencyIds
  run (id : Ident) : id ∈ g.trips → id.agency ∈ g.agencyIds

theorem hasAgency_iff {g : Schedule R} {id : String} : g.hasAgency id ↔ id ∈ g.agencyIds := by
  rw [hasAgency_eq_any, List.any_eq_true, agencyIds, List.mem_map]
  simp only [decide_eq_true_eq]

theorem mem_of_agency? {g : Schedule R} {id : String} {a : Agency} (h : g.agency? id = some a) :
    a ∈ g.agencies ∧ a.id = id := by
  have hid := List.find?_some h
  exact ⟨List.mem_of_find?_eq_some h, of_decide_eq_true hid⟩

section Parts

variable {g h : Schedule R}

theorem routeOf?_congr (trips : h.trips = g.trips) : h.routeOf? = g.routeOf? := by
  funext trip
  rw [routeOf?, trips, routeOf?]

theorem routeOf?_insert (t : Trip R) (trips : h.trips = g.trips.insert t.id t) (trip : Ident) :
    h.routeOf? trip = if t.id = trip then some t.route else g.routeOf? trip := by
  rw [routeOf?, trips, Table.getElem?_insert]
  split
  · rfl
  · rfl

theorem routeOf?_erase {id : Ident} (trips : h.trips = g.trips.erase id) (trip : Ident) :
    h.routeOf? trip = if id = trip then none else g.routeOf? trip := by
  rw [routeOf?, trips, Table.getElem?_erase]
  split
  · rfl
  · rfl

theorem collectionOf?_congr (routes : h.routes = g.routes) :
    h.collectionOf? = g.collectionOf? := by
  funext route
  rw [collectionOf?, routes, collectionOf?]

theorem getElem?_editRouteTrips (g : Schedule R) (route r : Ident) (f : List Ident → List Ident) :
    (g.editRouteTrips route f).routes[r]? =
      if route = r then g.routes[r]?.map fun v => { v with trips := f v.trips }
      else g.routes[r]? :=
  Table.getElem?_adjust g.routes route r _

@[simp] theorem collectionOf?_editRouteTrips (g : Schedule R) (route : Ident)
    (f : List Ident → List Ident) :
    (g.editRouteTrips route f).collectionOf? = g.collectionOf? := by
  funext r
  rw [collectionOf?, getElem?_editRouteTrips, collectionOf?]
  split
  · rw [Option.map_map]
    rfl
  · rfl

theorem frame_withdraw [Zero R] (g : Schedule R) (id : Ident) (t : Trip R) :
    (g.withdraw id t).agencies = g.agencies ∧ (g.withdraw id t).collections = g.collections ∧
      (g.withdraw id t).routes = (g.editRouteTrips t.route (·.filter (· ≠ id))).routes := by
  obtain ⟨blocks, hd, _⟩ := detach_eq { g with trips := g.trips.erase id } t
  rw [withdraw, hd]
  exact ⟨rfl, rfl, rfl⟩

section FileRoute

variable (g : Schedule R) (route collection : Ident)

@[simp] theorem trips_fileRoute : (g.fileRoute route collection).trips = g.trips := by
  rw [fileRoute_eq]

theorem collectionOf?_fileRoute (r : Ident) :
    (g.fileRoute route collection).collectionOf? r =
      if route = r then some collection else g.collectionOf? r := by
  rw [collectionOf?, fileRoute_eq, Table.getElem?_insert]
  split
  · rfl
  · rfl

@[simp] theorem mem_collections_fileRoute {id : Ident} :
    id ∈ (g.fileRoute route collection).collections ↔ collection = id ∨ id ∈ g.collections := by
  simp [fileRoute_eq]

@[simp] theorem agencyIds_fileRoute : (g.fileRoute route collection).agencyIds = g.agencyIds := by
  rw [agencyIds, fileRoute_eq]
  cases g.collections[collection]? with
  | none =>
    have hkeep (a : Agency) : Agency.id (if a.id = collection.agency ∧ collection ∉ a.collections
        then { a with collections := a.collections ++ [collection] } else a) = a.id := by
      split
      · rfl
      · rfl
    simp only [linkCollection, List.map_map, Function.comp_def, hkeep]
    rfl
  | some c => rfl

end FileRoute

end Parts

namespace Filed

variable {g h : Schedule R}

theorem empty : Filed (empty : Schedule R) where
  routes route r hr := by
    have hnone : (Schedule.empty : Schedule R).routes[route]? = none :=
      Std.ExtTreeMap.getElem?_empty
    rw [hnone] at hr
    cases hr
  collections id c hc := by
    have hnone : (Schedule.empty : Schedule R).collections[id]? = none :=
      Std.ExtTreeMap.getElem?_empty
    rw [hnone] at hc
    cases hc
  agencies a ha := by cases ha
  distinct := List.nodup_nil
  collected route id hr := by
    have hnone : (Schedule.empty : Schedule R).collectionOf? route = none := by
      rw [collectionOf?]
      exact congrArg _ Std.ExtTreeMap.getElem?_empty
    rw [hnone] at hr
    cases hr
  kept id hid := (Std.ExtTreeMap.not_mem_empty hid).elim
  run id hid := (Std.ExtTreeMap.not_mem_empty hid).elim

/-- A schedule with other trips of the same routes, listed under them, is filed as before. -/
theorem retrip (hg : Filed g) (agencies : h.agencies = g.agencies)
    (collections : h.collections = g.collections) (filed : h.collectionOf? = g.collectionOf?)
    (routes : ∀ route r, h.routes[route]? = some r →
      r.id = route ∧ Lists r.trips fun trip => h.routeOf? trip = some route)
    (run : ∀ id, id ∈ h.trips → id.agency ∈ g.agencyIds) : Filed h where
  routes := routes
  collections id c hc := by
    rw [filed]
    exact hg.collections id c (collections ▸ hc)
  agencies a ha := by
    rw [collections]
    exact hg.agencies a (agencies ▸ ha)
  distinct := by
    rw [agencyIds, agencies]
    exact hg.distinct
  collected route id hid := by
    rw [collections]
    exact hg.collected route id (filed ▸ hid)
  kept id hid := by
    rw [agencyIds, agencies]
    exact hg.kept id (collections ▸ hid)
  run id hid := by
    rw [agencyIds, agencies]
    exact run id hid

theorem congr (hg : Filed g) (trips : h.trips = g.trips) (routes : h.routes = g.routes)
    (collections : h.collections = g.collections) (agencies : h.agencies = g.agencies) :
    Filed h := by
  apply hg.retrip agencies collections (collectionOf?_congr routes)
  · intro route r hr
    rw [routeOf?_congr trips]
    exact hg.routes route r (routes ▸ hr)
  · rw [trips]
    exact hg.run

theorem agency (hg : Filed g) {id : String} (timezone : String) (new : ¬g.hasAgency id) :
    Filed { g with agencies := g.agencies ++ [{ id, timezone, collections := [] }] } := by
  rw [hasAgency_iff] at new
  have hids : agencyIds { g with agencies := g.agencies ++ [{ id, timezone, collections := [] }] } =
      g.agencyIds ++ [id] := List.map_append
  constructor
  · exact hg.routes
  · exact hg.collections
  · intro a ha
    rcases List.mem_append.1 ha with ha | ha
    · exact hg.agencies a ha
    · obtain rfl := List.mem_singleton.1 ha
      apply Lists.nil
      rintro c ⟨hstored, hagency : c.agency = id⟩
      apply new
      rw [← hagency]
      exact hg.kept c hstored
  · rw [hids, ← List.concat_eq_append]
    exact hg.distinct.concat new
  · exact hg.collected
  · intro c hc
    rw [hids]
    exact List.mem_append_left _ (hg.kept c hc)
  · intro t ht
    rw [hids]
    exact List.mem_append_left _ (hg.run t ht)

/-- What is left to show when the trips of one route are edited: that the edit keeps up with the
trips of that route, and that the trips of the others stay. -/
theorem routes_edited (hg : Filed g) {route : Ident} {f : List Ident → List Ident}
    (routes : h.routes = (g.editRouteTrips route f).routes)
    (edited : ∀ l, (Lists l fun trip => g.routeOf? trip = some route) →
      Lists (f l) fun trip => h.routeOf? trip = some route)
    (others : ∀ r, route ≠ r → ∀ trip, h.routeOf? trip = some r ↔ g.routeOf? trip = some r) :
    ∀ r v, h.routes[r]? = some v →
      v.id = r ∧ Lists v.trips fun trip => h.routeOf? trip = some r := by
  intro r v hv
  rw [routes, getElem?_editRouteTrips] at hv
  split at hv
  · next he =>
    subst he
    obtain ⟨u, hu, rfl⟩ := Option.map_eq_some_iff.1 hv
    obtain ⟨hid, hlists⟩ := hg.routes route u hu
    exact ⟨hid, edited u.trips hlists⟩
  · next he =>
    obtain ⟨hid, hlists⟩ := hg.routes r v hv
    exact ⟨hid, hlists.congr (others r he)⟩

theorem enter [Zero R] {t : Trip R} (hg : Filed g) (known : g.hasAgency t.id.agency)
    (new : g.trips[t.id]? = none) : Filed (g.enter t) := by
  have htrips : (g.enter t).trips = g.trips.insert t.id t := rfl
  have hroutes : (g.enter t).routes = (g.editRouteTrips t.route (· ++ [t.id])).routes := rfl
  have hnone : g.routeOf? t.id = none := by rw [routeOf?, new, Option.map_none]
  have hof := routeOf?_insert t htrips
  have hfiled : (g.enter t).collectionOf? = g.collectionOf? := by
    simp [collectionOf?_congr hroutes]
  have hlisted : ∀ l, (Lists l fun trip => g.routeOf? trip = some t.route) →
      Lists (l ++ [t.id]) fun trip => (g.enter t).routeOf? trip = some t.route := by
    intro l hl
    apply hl.concat
    · simp [hnone]
    · intro trip
      rw [hof]
      by_cases ht : t.id = trip
      · simp [ht]
      · simp [ht, Ne.symm ht]
  have hothers : ∀ r, t.route ≠ r → ∀ trip,
      (g.enter t).routeOf? trip = some r ↔ g.routeOf? trip = some r := by
    intro r hr trip
    rw [hof]
    by_cases ht : t.id = trip
    · simp [← ht, hr, hnone]
    · simp [ht]
  have hrun : ∀ id, id ∈ (g.enter t).trips → id.agency ∈ g.agencyIds := by
    intro id hid
    rw [htrips, Table.mem_insert_iff] at hid
    rcases hid with rfl | hid
    · exact hasAgency_iff.1 known
    · exact hg.run id hid
  exact hg.retrip rfl rfl hfiled (hg.routes_edited hroutes hlisted hothers) hrun

theorem withdraw [Zero R] {id : Ident} {t : Trip R} (hg : Filed g)
    (stored : g.trips[id]? = some t) : Filed (g.withdraw id t) := by
  have htrips := trips_withdraw g id t
  obtain ⟨hagencies, hcollections, hroutes⟩ := frame_withdraw g id t
  have hroute : g.routeOf? id = some t.route := by rw [routeOf?, stored, Option.map_some]
  have hof := routeOf?_erase htrips
  have hfiled : (g.withdraw id t).collectionOf? = g.collectionOf? := by
    simp [collectionOf?_congr hroutes]
  have hlisted : ∀ l, (Lists l fun trip => g.routeOf? trip = some t.route) →
      Lists (l.filter (· ≠ id)) fun trip => (g.withdraw id t).routeOf? trip = some t.route := by
    intro l hl
    apply hl.without
    intro trip
    rw [hof]
    by_cases ht : id = trip
    · simp [ht]
    · simp [ht, Ne.symm ht]
  have hothers : ∀ r, t.route ≠ r → ∀ trip,
      (g.withdraw id t).routeOf? trip = some r ↔ g.routeOf? trip = some r := by
    intro r hr trip
    rw [hof]
    by_cases ht : id = trip
    · simp [← ht, hr, hroute]
    · simp [ht]
  have hrun : ∀ i, i ∈ (g.withdraw id t).trips → i.agency ∈ g.agencyIds := by
    intro i hi
    rw [htrips, Std.ExtTreeMap.mem_erase] at hi
    exact hg.run i hi.2
  exact hg.retrip hagencies hcollections hfiled (hg.routes_edited hroutes hlisted hothers) hrun

theorem revise [Zero R] {id : Ident} {s t : Trip R} (hg : Filed g)
    (stored : g.trips[id]? = some s) (hroute : t.route = s.route) : Filed (g.revise id t) := by
  have htrips : (g.revise id t).trips = g.trips.insert id t := rfl
  have hof : (g.revise id t).routeOf? = g.routeOf? := by
    funext trip
    rw [routeOf?, htrips, Table.getElem?_insert, routeOf?]
    split
    · next he => rw [← he, stored, Option.map_some, Option.map_some, hroute]
    · rfl
  apply hg.retrip (h := g.revise id t) rfl rfl rfl
  · intro route r hr
    rw [hof]
    exact hg.routes route r hr
  · intro i hi
    rw [htrips, Table.mem_insert_of_mem (Table.mem_of_getElem? stored)] at hi
    exact hg.run i hi

section Route

variable {route collection : Ident}

theorem collections_fileRoute (hg : Filed g) (new : route ∉ g.routes) (id : Ident)
    (c : RouteCollection) (hc : (g.fileRoute route collection).collections[id]? = some c) :
    c.id = id ∧ c.routes ≠ [] ∧
      Lists c.routes fun r => (g.fileRoute route collection).collectionOf? r = some id := by
  have hnone : g.collectionOf? route = none := by
    rw [collectionOf?, Std.ExtTreeMap.getElem?_eq_none new, Option.map_none]
  have hlast {l : List Ident} (hl : Lists l fun r => g.collectionOf? r = some collection) :
      Lists (l ++ [route]) fun r =>
        (g.fileRoute route collection).collectionOf? r = some collection := by
    apply hl.concat
    · simp [hnone]
    · intro r
      rw [collectionOf?_fileRoute]
      by_cases hr : route = r
      · simp [hr]
      · simp [hr, Ne.symm hr]
  rw [fileRoute_eq, Table.getElem?_insert] at hc
  split at hc
  · next he =>
    subst he
    cases hstored : g.collections[collection]? with
    | none =>
      rw [hstored, Option.some.injEq] at hc
      subst hc
      have hempty : Lists [] fun r => g.collectionOf? r = some collection := by
        apply Lists.nil
        intro r hr
        exact (getElem?_eq_none_iff _ _).1 hstored (hg.collected r collection hr)
      exact ⟨rfl, List.cons_ne_nil _ _, hlast hempty⟩
    | some d =>
      rw [hstored, Option.some.injEq] at hc
      subst hc
      obtain ⟨hid, _, hlists⟩ := hg.collections collection d hstored
      exact ⟨hid, by simp, hlast hlists⟩
  · next he =>
    obtain ⟨hid, hne, hlists⟩ := hg.collections id c hc
    have hsame : ∀ r, (g.fileRoute route collection).collectionOf? r = some id ↔
        g.collectionOf? r = some id := by
      intro r
      rw [collectionOf?_fileRoute]
      by_cases hr : route = r
      · simp [← hr, he, hnone]
      · simp [hr]
    exact ⟨hid, hne, hlists.congr hsame⟩

theorem agencies_linkCollection (hg : Filed g) (new : collection ∉ g.collections) (a : Agency)
    (ha : a ∈ (g.linkCollection collection).agencies) :
    Lists a.collections fun id => (collection = id ∨ id ∈ g.collections) ∧ id.agency = a.id := by
  obtain ⟨b, hb, rfl⟩ := List.mem_map.1 ha
  have hlists := hg.agencies b hb
  have hnew : collection ∉ b.collections := fun hmem => new ((hlists.2 collection).1 hmem).1
  by_cases hid : b.id = collection.agency
  · rw [if_pos ⟨hid, hnew⟩]
    apply hlists.concat
    · exact fun hc => new hc.1
    · intro id
      rw [or_and_right, or_comm]
      apply or_congr_right
      constructor
      · exact fun hc => hc.1.symm
      · rintro rfl
        exact ⟨rfl, hid.symm⟩
  · rw [if_neg fun hc => hid hc.1]
    apply hlists.congr
    intro id
    apply and_congr_left
    intro hagency
    apply or_iff_right
    intro he
    rw [← hagency, he] at hid
    exact hid rfl

theorem agencies_fileRoute (hg : Filed g) (a : Agency)
    (ha : a ∈ (g.fileRoute route collection).agencies) :
    Lists a.collections fun id =>
      id ∈ (g.fileRoute route collection).collections ∧ id.agency = a.id := by
  simp only [mem_collections_fileRoute]
  rw [fileRoute_eq] at ha
  cases hstored : g.collections[collection]? with
  | none =>
    rw [hstored] at ha
    exact hg.agencies_linkCollection ((getElem?_eq_none_iff _ _).1 hstored) a ha
  | some d =>
    rw [hstored] at ha
    apply (hg.agencies a ha).congr
    intro id
    apply and_congr_left
    intro _
    apply or_iff_right_of_imp
    rintro rfl
    exact Table.mem_of_getElem? hstored

theorem fileRoute (hg : Filed g) (routed : ∀ trip, g.routeOf? trip ≠ some route)
    (known : g.hasAgency collection.agency) (new : route ∉ g.routes) :
    Filed (g.fileRoute route collection) := by
  constructor
  · intro r v hv
    rw [routeOf?_congr (trips_fileRoute g route collection)]
    rw [fileRoute_eq, Table.getElem?_insert] at hv
    split at hv
    · next he =>
      cases hv
      exact ⟨he, .nil (he ▸ routed)⟩
    · exact hg.routes r v hv
  · exact hg.collections_fileRoute new
  · exact hg.agencies_fileRoute
  · rw [agencyIds_fileRoute]
    exact hg.distinct
  · intro r id hr
    rw [mem_collections_fileRoute]
    rw [collectionOf?_fileRoute] at hr
    split at hr
    · exact .inl (Option.some.inj hr)
    · exact .inr (hg.collected r id hr)
  · intro id hid
    rw [agencyIds_fileRoute]
    rcases (mem_collections_fileRoute g route collection).1 hid with rfl | hid
    · exact hasAgency_iff.1 known
    · exact hg.kept id hid
  · rw [trips_fileRoute, agencyIds_fileRoute]
    exact hg.run

end Route

theorem step [Zero R] (hg : Filed g) (hc : Consistent g) (hs : Step g h) : Filed h := by
  cases hs with
  | aside same _ => exact hg.congr same.trips same.routes same.collections same.agencies
  | agency id timezone new => exact hg.agency timezone new
  | route route collection known new =>
    apply hg.fileRoute _ known new
    intro trip htrip
    obtain ⟨t, ht, rfl⟩ := Option.map_eq_some_iff.1 htrip
    exact new (hc.routed trip t ht)
  | enter t _ known _ new => exact hg.enter known new
  | withdraw id t stored => exact hg.withdraw stored
  | replan id t calls stored =>
    have hrevise := hg.revise (t := t.withCalls calls) stored rfl
    exact hrevise.congr rfl rfl rfl rfl
  | reshape id t shape stored => exact hg.revise stored rfl

theorem steps [Zero R] (hg : Filed g) (hc : Consistent g) (hs : Steps g h) : Filed h := by
  have hboth : Consistent h ∧ Filed h := by
    apply hs.induction (P := fun f => Consistent f ∧ Filed f)
    · intro f k hf hstep
      exact ⟨hf.1.step hstep, hf.2.step hf.1 hstep⟩
    · exact ⟨hc, hg⟩
  exact hboth.2

end Filed

theorem Reachable.filed [Geometry R] {g : Schedule R} (h : g.Reachable) : Filed g :=
  Filed.empty.steps .empty h.steps

section Growth

variable [Zero R] {g h : Schedule R}

theorem Step.mem_routes (hs : Step g h) {route : Ident} (hr : route ∈ g.routes) :
    route ∈ h.routes := by
  cases hs with
  | aside same _ => rwa [same.routes]
  | agency id timezone _ => exact hr
  | route r collection _ _ =>
    rw [fileRoute_eq]
    exact Std.ExtTreeMap.mem_insert.2 (.inr hr)
  | enter t _ _ _ _ => exact mem_routes_enter.2 hr
  | withdraw id t _ => exact mem_routes_withdraw.2 hr
  | replan id t calls _ => exact hr
  | reshape id t shape _ => exact hr

theorem Steps.mem_routes (hs : Steps g h) {route : Ident} (hr : route ∈ g.routes) :
    route ∈ h.routes :=
  hs.induction (P := fun f => route ∈ f.routes) (fun _ _ hf hs => hs.mem_routes hf) hr

theorem Step.mem_agencyIds (hs : Step g h) {id : String} (ha : id ∈ g.agencyIds) :
    id ∈ h.agencyIds := by
  cases hs with
  | aside same _ => rwa [agencyIds, same.agencies]
  | agency new timezone _ =>
    rw [agencyIds, List.map_append]
    exact List.mem_append_left _ ha
  | route r collection _ _ => simpa using ha
  | enter t _ _ _ _ => exact ha
  | withdraw trip t _ =>
    rwa [agencyIds, (frame_withdraw g trip t).1]
  | replan trip t calls _ => exact ha
  | reshape trip t shape _ => exact ha

theorem Steps.mem_agencyIds (hs : Steps g h) {id : String} (ha : id ∈ g.agencyIds) :
    id ∈ h.agencyIds :=
  hs.induction (P := fun f => id ∈ f.agencyIds) (fun _ _ hf hs => hs.mem_agencyIds hf) ha

end Growth

/-- However a schedule came about, its trips, routes, collections and agencies name each other both
ways. The route of a stored trip is stored. A route lists exactly the stored trips that name it and
is listed once by its collection, which is stored. A collection lists exactly the stored routes
that name it, of which there is one at least, and is listed once by its agency, which is
registered. An agency lists exactly the stored collections of its id. -/
theorem Reachable.listed_both_ways [Geometry R] {g : Schedule R} (h : g.Reachable) :
    (∀ (id : Ident) (t : Trip R), g.trips[id]? = some t → t.route ∈ g.routes) ∧
    (∀ (route : Ident) (r : Route), g.routes[route]? = some r → r.id = route ∧
      (Lists r.trips fun trip => ∃ t : Trip R, g.trips[trip]? = some t ∧ t.route = route) ∧
      ∃ c, g.collections[r.collection]? = some c ∧ c.routes.count route = 1) ∧
    (∀ (id : Ident) (c : RouteCollection), g.collections[id]? = some c → c.id = id ∧
      c.routes ≠ [] ∧
      (Lists c.routes fun route => ∃ r, g.routes[route]? = some r ∧ r.collection = id) ∧
      ∃ a, g.agency? id.agency = some a ∧ a.collections.count id = 1) ∧
    g.agencyIds.Nodup ∧
    ∀ a ∈ g.agencies, Lists a.collections fun id => id ∈ g.collections ∧ id.agency = a.id := by
  have hg := h.filed
  refine ⟨h.consistent.routed, ?_, ?_, hg.distinct, hg.agencies⟩
  · intro route r hr
    obtain ⟨hid, hlists⟩ := hg.routes route r hr
    have hof : g.collectionOf? route = some r.collection := by
      rw [collectionOf?, hr, Option.map_some]
    obtain ⟨c, hc⟩ := Table.exists_of_mem (hg.collected route r.collection hof)
    obtain ⟨_, _, hroutes⟩ := hg.collections r.collection c hc
    simp only [routeOf?, Option.map_eq_some_iff] at hlists
    exact ⟨hid, hlists, c, hc, hroutes.count_eq_one hof⟩
  · intro id c hc
    obtain ⟨hid, hne, hlists⟩ := hg.collections id c hc
    have hmem : id ∈ g.collections := Table.mem_of_getElem? hc
    obtain ⟨a, ha⟩ := Option.isSome_iff_exists.1 (hasAgency_iff.2 (hg.kept id hmem))
    obtain ⟨hregistered, hagency⟩ := mem_of_agency? ha
    have hcollections := hg.agencies a hregistered
    simp only [collectionOf?, Option.map_eq_some_iff] at hlists
    exact ⟨hid, hne, hlists, a, ha, hcollections.count_eq_one ⟨hmem, hagency.symm⟩⟩

/-- A route under a collection named like another route, which comes up with a trip that moves to
the first route later. -/
def refiledDay : List (Edit Float) :=
  let trip (route : String) : Trip Float :=
    .ofCalls ⟨"A", "T1"⟩ ⟨"A", route⟩ none ⟨"A", "S"⟩
      [{ stop := ⟨"A", "X"⟩, published := none, arrival := 0, departure := 0, distance := 0 }]
  [.addAgency "A" "UTC", .addRoute ⟨"A", "R1"⟩ ⟨"A", "R2"⟩, .addTrip (trip "R2") none,
    .updateTrip (trip "R1") none]

theorem listed_both_ways_refiledDay :
    let g := empty.run refiledDay
    g.Reachable ∧
    (g.collections[(⟨"A", "R2"⟩ : Ident)]?.map (·.routes)) = some [⟨"A", "R1"⟩, ⟨"A", "R2"⟩] ∧
    (∀ (id : Ident) (t : Trip Float), g.trips[id]? = some t → t.route ∈ g.routes) ∧
    (∀ (route : Ident) (r : Route), g.routes[route]? = some r → r.id = route ∧
      (Lists r.trips fun trip => ∃ t : Trip Float, g.trips[trip]? = some t ∧ t.route = route) ∧
      ∃ c, g.collections[r.collection]? = some c ∧ c.routes.count route = 1) ∧
    (∀ (id : Ident) (c : RouteCollection), g.collections[id]? = some c → c.id = id ∧
      c.routes ≠ [] ∧
      (Lists c.routes fun route => ∃ r, g.routes[route]? = some r ∧ r.collection = id) ∧
      ∃ a, g.agency? id.agency = some a ∧ a.collections.count id = 1) ∧
    g.agencyIds.Nodup ∧
    ∀ a ∈ g.agencies, Lists a.collections fun id => id ∈ g.collections ∧ id.agency = a.id :=
  ⟨⟨refiledDay, rfl⟩, by decide +kernel, Reachable.listed_both_ways ⟨refiledDay, rfl⟩⟩

end Schedule

end Timetable
