/-
A service that follows a watch: it handles the saves that the watch reports and reloads the
settings when they change. A save or a reload that fails is reported, and the service goes on. What
the service writes itself is reported by the watch as well, and the cooldown answers it.
-/
import Repath.Description
import Repath.Service
import Repath.Watch

namespace Repath

structure Follower where
  disk : Disk
  service : Service
  watch : Watch
  /-- What has been printed. -/
  output : Text := []
  /-- What has been logged, first event first. -/
  log : List Event := []

namespace Follower

/-- What handling a save reports. -/
def savedEvents (path : Text) (handled : Handled) : List Event :=
  handled.events ++ match handled.answer with
    | .ok none => []
    | .ok (some outcome) => [.saveHandled path outcome.description]
    | .error failure => [.saveFailed path failure.message]

/-- Answers one report. -/
def answer (sink : Sink) (now : Nat) (follower : Follower) : WatchReport → Follower
  | .saved path language =>
    let handled := follower.service.handleSave follower.disk path language now sink
    { follower with
      disk := handled.disk
      service := handled.service
      output := follower.output ++ handled.notices.flatMap (Notice.output sink)
      log := follower.log ++ savedEvents path handled }
  | .settingsChanged =>
    match follower.service.reload follower.disk with
    | .ok service =>
      { follower with
        service
        log := follower.log ++ follower.service.reloadEvents follower.disk }
    | .error failure => { follower with log := follower.log ++ [.reloadFailed failure.message] }

/-- Answers the reports of the changes so far. The changes that come of the answers are left to the
next round. -/
def round (sink : Sink) (now : Nat) (follower : Follower) : Follower :=
  (follower.watch.reports follower.disk).foldl (answer sink now)
    { follower with watch := follower.watch.catchUp follower.disk }

/-- Whether nothing is left to answer. -/
def isIdle (follower : Follower) : Bool :=
  (follower.watch.reports follower.disk).isEmpty

end Follower

end Repath
