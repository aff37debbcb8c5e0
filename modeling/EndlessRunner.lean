import EndlessRunner.Laws.Speed
import EndlessRunner.Laws.Lanes
import EndlessRunner.Laws.Obstacles
import EndlessRunner.Laws.Road
import EndlessRunner.Laws.LaneGeometry
import EndlessRunner.Laws.Passing
import EndlessRunner.Laws.Invincibility
import EndlessRunner.Laws.Faults
import EndlessRunner.Laws.SpeedLimit
import EndlessRunner.Laws.Lives
import EndlessRunner.Laws.Toggles
import EndlessRunner.Laws.Switching
import EndlessRunner.Laws.Recycling
import EndlessRunner.Laws.Attachment
import EndlessRunner.Laws.Overlaps
import EndlessRunner.Laws.Clearing
import EndlessRunner.Laws.Interleaving
import EndlessRunner.Laws.Garbage
import EndlessRunner.Laws.Board
import EndlessRunner.Laws.Timers
import EndlessRunner.Laws.Riding
import EndlessRunner.Laws.Endless
import EndlessRunner.Laws.Steering
import EndlessRunner.Laws.TriggerBox
import EndlessRunner.Laws.Turns
import EndlessRunner.Laws.Course
