import Ece385.Lib.Clocked
import Ece385.Lib.Figure
import Ece385.Lib.RowStack
import Ece385.Tetris.Signals
import Ece385.Tetris.ChooseBlock
import Ece385.Tetris.RotateBlock
import Ece385.Tetris.BlockMotion
import Ece385.Tetris.Board
import Ece385.Tetris.MotionSpec
import Ece385.Tetris.Top
import Ece385.Tetris.Orientation
import Ece385.Tetris.Grid
import Ece385.Tetris.Geometry
import Ece385.Tetris.Handover
import Ece385.Tetris.LineClear
import Ece385.Tetris.Compaction
import Ece385.Tetris.ResetClock
import Ece385.Tetris.PieceSafety
import Ece385.Tetris.FrameStep
import Ece385.Tetris.Rotation
import Ece385.Tetris.Sidestep
import Ece385.Tetris.Probes
import Ece385.Tetris.Conservation
import Ece385.Tetris.Support
import Ece385.Lib.Raster
import Ece385.Tetris.ColorMapper
import Ece385.Tetris.ScreenLookup
import Ece385.Tetris.Keyboard
import Ece385.Tetris.Typematic
import Ece385.HexDriver
import Ece385.Lib.BinaryField
import Ece385.Lib.CyclicProduct
import Ece385.Aes.ByteField
import Ece385.Aes.Fips197
import Ece385.Lib.CountedLoop
import Ece385.Aes.Software
import Ece385.Lib.Lanes
import Ece385.Aes.Packing
import Ece385.Aes.Words
import Ece385.Aes.SoftwareCorrect
import Ece385.Aes.Hardware
import Ece385.Aes.InverseCipher
import Ece385.Aes.KeySchedule
import Ece385.Aes.RegisterFile
import Ece385.Lib.Odometer
import Ece385.Lib.Components
import Ece385.Tetris.VgaController
import Ece385.Tetris.Lfsr
import Ece385.Tetris.Receiver
import Ece385.Tetris.Reception
import Ece385.Tetris.TetrisTop
import Ece385.Tetris.Gravity
import Ece385.Tetris.System
import Ece385.Tetris.Typing
import Ece385.Tetris.Draws
import Ece385.Tetris.Sideways
import Ece385.Tetris.Occupancy
import Ece385.Tetris.Display
import Ece385.Tetris.Sprites
import Ece385.Lib.FallingFigures
import Ece385.Tetris.Rules
import Ece385.Aes.Permutation
import Ece385.Aes.Lab9Top
import Ece385.Lib.Bounce
import Ece385.Lab8.Ball
import Ece385.Lab7.Accumulator
