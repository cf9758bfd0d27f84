import GoVpn.Lib.Tally
import GoVpn.Netstack.TcpDemux

/-!
# Routes and attachments

`Detach` and a read loop that ends both take the route out under the lock and stop the attachment
after it, when the address may have been attached again. So an attachment without a route is one
that somebody is still going to stop, and no stop to come meets an attachment with a route.
-/

namespace GoVpn.Netstack

open TcpDemux

/-- How routes and attachments go together while the sections `todo` are still to come. -/
structure Routing (d : TcpDemux) (todo : List DemuxSection) : Prop where
  server : d.routes d.serverIP = none
  /-- A route leads to an attachment of its address that is not stopped, and not about to be. -/
  live : ∀ ip a, d.routes ip = some a → d.attachments[a]? = some { ip := ip } ∧ .stop a ∉ todo
  /-- An attachment without a route is stopped, or about to be. -/
  kept : ∀ a att, d.attachments[a]? = some att →
    d.routes att.ip = some a ∨ att.stopped = true ∨ .stop a ∈ todo
  known : ∀ a, .stop a ∈ todo → a < d.attachments.length

/-- A step has nothing to do with attachments. -/
def Apart (d : TcpDemux) (r : TcpDemux × List DemuxSection) : Prop :=
  r.1.serverIP = d.serverIP ∧ r.1.routes = d.routes ∧ r.1.attachments = d.attachments ∧
    ∀ a, .stop a ∉ r.2

variable {d : TcpDemux} {l : List DemuxSection}

theorem apart_execConn (id : Nat) (act : Action) : Apart d (d.execConn id act) := by
  unfold execConn
  split
  · exact ⟨rfl, rfl, rfl, by simp⟩
  · refine ⟨rfl, rfl, rfl, fun a => ?_⟩
    dsimp only [afterwards, removeConn]
    repeat' split
    all_goals simp

/-- Only the sections of a stop concern attachments. -/
theorem apart_exec {sec : DemuxSection} (takes : Bool) (hsec : ∀ a, sec ≠ .stop a) :
    Apart d (d.exec sec takes) := by
  cases sec with
  | stop a => exact absurd rfl (hsec a)
  | segment _ id seg => exact apart_execConn id (.segment seg)
  | conn id act => exact apart_execConn id act
  | _ => grind [Apart, TcpDemux.exec, setListener]

namespace Routing

theorem congr {d' : TcpDemux} {l' : List DemuxSection} (hd : Routing d l)
    (hip : d'.serverIP = d.serverIP) (hroutes : d'.routes = d.routes)
    (hatt : d'.attachments = d.attachments) (hstop : ∀ a, .stop a ∈ l' ↔ .stop a ∈ l) :
    Routing d' l' where
  server := by rw [hip, hroutes]; exact hd.server
  live ip a hr := by
    rw [hroutes] at hr
    rw [hatt, hstop]
    exact hd.live ip a hr
  kept a att ha := by
    rw [hatt] at ha
    rw [hroutes, hstop]
    exact hd.kept a att ha
  known a ha := by
    rw [hatt]
    exact hd.known a ((hstop a).mp ha)

theorem perm (d : TcpDemux) (l l' : List DemuxSection) (h : l.Perm l') (hd : Routing d l) :
    Routing d l' :=
  hd.congr rfl rfl rfl fun _ => h.mem_iff.symm

theorem apart {r : TcpDemux × List DemuxSection} (hd : Routing d l) (h : Apart d r) :
    Routing r.1 (r.2 ++ l) := by
  obtain ⟨hip, hroutes, hatt, hmore⟩ := h
  exact hd.congr hip hroutes hatt fun a => by simp [hmore a]

theorem stop {a : Nat} (hd : Routing d (.stop a :: l)) (takes : Bool) :
    Routing (d.exec (.stop a) takes).1 l := by
  obtain ⟨hserver, hlive, hkept, hknown⟩ := hd
  refine ⟨hserver, fun ip b hr => ?_, fun b att hb => ?_, fun b hb => ?_⟩
  · obtain ⟨hb, hnot⟩ := hlive ip b hr
    rw [List.mem_cons, not_or] at hnot
    have hne : a ≠ b := fun he => hnot.1 (he ▸ rfl)
    exact ⟨(List.getElem?_modify_ne _ _ hne).trans hb, hnot.2⟩
  · by_cases hab : a = b
    · subst hab
      obtain ⟨old, -, rfl⟩ := Option.map_eq_some_iff.mp ((List.getElem?_modify_eq ..).symm.trans hb)
      exact .inr (.inl rfl)
    · have hold := (List.getElem?_modify_ne _ _ hab).symm.trans hb
      refine (hkept b att hold).imp_right (.imp_right fun hmem => ?_)
      rcases List.mem_cons.mp hmem with he | hmem
      · exact absurd (DemuxSection.stop.inj he).symm hab
      · exact hmem
  · simpa [TcpDemux.exec] using hknown b (List.mem_cons_of_mem _ hb)

/-- A section of a call runs. -/
theorem exec {sec : DemuxSection} (hd : Routing d (sec :: l)) (takes : Bool) :
    Routing (d.exec sec takes).1 ((d.exec sec takes).2 ++ l) := by
  by_cases hsec : ∃ a, sec = .stop a
  · obtain ⟨a, rfl⟩ := hsec
    exact hd.stop takes
  · have hne : ∀ a, sec ≠ .stop a := fun a he => hsec ⟨a, he⟩
    have hl : Routing d l := hd.congr rfl rfl rfl fun a => by simp [(hne a).symm]
    exact hl.apart (apart_exec takes hne)

theorem unrouted {a : Nat} {routes : Addr → Option Nat} (hd : Routing d l)
    (ha : a < d.attachments.length)
    (h : ∀ ip, routes ip = if d.routes ip = some a then none else d.routes ip) :
    Routing { d with routes } (.stop a :: l) := by
  obtain ⟨hserver, hlive, hkept, hknown⟩ := hd
  refine ⟨?_, fun ip b hr => ?_, fun b att hb => ?_, fun b hb => ?_⟩
  · simp [h, hserver]
  · dsimp only at hr
    rw [h] at hr
    split at hr
    · cases hr
    · rename_i hra
      obtain ⟨hb, hnot⟩ := hlive ip b hr
      refine ⟨hb, fun hmem => ?_⟩
      rcases List.mem_cons.mp hmem with he | hmem
      · exact hra (DemuxSection.stop.inj he ▸ hr)
      · exact hnot hmem
  · by_cases hba : b = a
    · exact .inr (.inr (hba ▸ List.mem_cons_self))
    · refine (hkept b att hb).imp (fun hr => ?_) (.imp_right (List.mem_cons_of_mem _))
      simpa [h, hr] using hba
  · rcases List.mem_cons.mp hb with he | hb
    · exact DemuxSection.stop.inj he ▸ ha
    · exact hknown b hb

theorem attached {ip : Addr} (hd : Routing d l) (hip : ip ≠ d.serverIP)
    (hfree : d.routes ip = none) :
    Routing { d with routes := Function.update d.routes ip (some d.attachments.length)
                     attachments := d.attachments ++ [{ ip := ip }] } l := by
  obtain ⟨hserver, hlive, hkept, hknown⟩ := hd
  refine ⟨?_, fun ip' b hr => ?_, fun b att hb => ?_, fun b hb => ?_⟩
  · simp [Function.update_of_ne hip.symm, hserver]
  · dsimp only at hr
    by_cases he : ip' = ip
    · subst he
      rw [Function.update_self] at hr
      obtain rfl := Option.some.inj hr
      exact ⟨by simp, fun hb => absurd (hknown _ hb) (Nat.lt_irrefl _)⟩
    · rw [Function.update_of_ne he] at hr
      obtain ⟨hb, hnot⟩ := hlive ip' b hr
      refine ⟨?_, hnot⟩
      exact (List.getElem?_append_left (List.getElem?_eq_some_iff.mp hb).1).trans hb
  · rcases Tally.getElem?_concat_cases hb with ⟨rfl, rfl⟩ | hb
    · exact .inl (Function.update_self ..)
    · refine (hkept b att hb).imp_left fun hr => ?_
      have hne : att.ip ≠ ip := by
        rintro rfl
        cases hfree.symm.trans hr
      exact (Function.update_of_ne hne ..).trans hr
  · simpa using Nat.lt_succ_of_lt (hknown b hb)

/-- A call starts. -/
theorem start (hd : Routing d l) (e : DemuxEvent) : Routing (d.start e).1 ((d.start e).2 ++ l) := by
  cases e with
  | attach ip =>
    dsimp only [TcpDemux.start]
    split
    · exact hd
    · rename_i h
      obtain ⟨hip, hfree⟩ := not_or.mp h
      exact hd.attached hip (by simpa using hfree)
  | detach ip =>
    dsimp only [TcpDemux.start]
    split
    · exact hd
    · rename_i a hr
      obtain ⟨ha, -⟩ := hd.live ip a hr
      refine hd.unrouted (List.getElem?_eq_some_iff.mp ha).1 fun ip' => ?_
      -- no other address has a route to the same attachment
      by_cases he : ip' = ip
      · simp [he, hr]
      · rw [Function.update_of_ne he, if_neg]
        intro hr'
        cases (hd.live ip' a hr').1.symm.trans ha
        exact he rfl
  | readFailed a =>
    dsimp only [TcpDemux.start]
    split
    · exact hd
    · rename_i att hatt
      have ha := (List.getElem?_eq_some_iff.mp hatt).1
      have only : ∀ ip, d.routes ip = some a → att.ip = ip := by
        intro ip hr
        rw [Option.some.inj (hatt.symm.trans (hd.live ip a hr).1)]
      split
      · rename_i hr
        refine hd.unrouted ha fun ip => ?_
        by_cases he : ip = att.ip
        · simp [he, hr]
        · rw [Function.update_of_ne he, if_neg fun hr' => he (only ip hr').symm]
      · rename_i hr
        refine hd.unrouted ha fun ip => ?_
        rw [if_neg fun hr' => hr (only ip hr' ▸ hr')]
  | app id act => exact hd.apart (by cases act <;> exact ⟨rfl, rfl, rfl, by simp [TcpDemux.start]⟩)
  | _ => exact hd.apart (by grind [Apart, TcpDemux.start])

end Routing

/--
**No attachment is forgotten, and none loses its route to another.**

In every interleaving of `Attach`, `Detach`, ending read loops and everything TCP does, a route
leads to an attachment that is not stopped, and one without a route is stopped or about to be.
-/
theorem routing_after (serverIP : Addr) (mss : BitVec 16)
    (ms : List (Threads.Move DemuxEvent Bool)) :
    Routing (TcpDemux.after serverIP mss ms).shared (TcpDemux.after serverIP mss ms).pending :=
  Threads.run_keeps' (p := program) Routing.perm (fun _ _ e h => h.start e)
    (fun _ _ takes _ h => h.exec takes) ms
    ⟨rfl, by simp, by simp, by simp [Threads.Sys.pending]⟩

end GoVpn.Netstack
