import Chip8.Host.Backend
import Chip8.Host.TerminalView
import Chip8.Host.WindowView
import Chip8.Scheduler.Basic

/-! What shows the pictures of a session, whatever the surface is. -/

namespace Chip8

inductive SurfaceView where
  | window (v : WindowView)
  | terminal (v : TerminalView)
  | headless (v : View)

namespace SurfaceView

variable {τ : Type}

/-- A terminal after a change. -/
def ofReply (reply : TerminalView.Reply) : Except Failure SurfaceView :=
  reply.result.map fun _ => .terminal reply.view

def serveWindow (host : Host) (v : WindowView) : HostCall τ → Except Failure WindowView
  | .title text => v.setTitle host.window text
  | .resolution width height => v.setResolution host.room width height
  | .draw picture => .ok (v.draw picture)
  | .refresh => (v.refresh host.window).map fun _ => v
  | _ => .ok v

/-- Does what the scheduler asks of a view. What concerns other parts of the host changes nothing,
and neither does what is shown without being kept. -/
def serve (host : Host) (v : SurfaceView) (call : HostCall τ) : Except Failure SurfaceView :=
  match v, call with
  | .window v, call => (serveWindow host v call).map .window
  | .terminal v, .title text => ofReply (v.setTitle host text)
  | .terminal v, .resolution width height => ofReply (v.setResolution host width height)
  | .terminal v, .draw picture => ofReply (v.draw host.terminal picture)
  | .headless v, .title text => .ok (.headless (v.setTitle text))
  | .headless v, .resolution width height => .ok (.headless (v.setResolution width height))
  | v, _ => .ok v

end SurfaceView

end Chip8
